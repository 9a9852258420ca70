import ClassHeader.Config.Basic
import ClassHeader.Decimal
import ClassHeader.Json.Reader

/-!
# Settings in JSON

A JSON object as settings. Numbers are taken as the nearest number of double
precision and are too large when there is none.
-/

namespace ClassHeader.Config

open Json (Number Value)

/-! ## Places -/

def placeStep (key : Bytes) : Bytes :=
  key.flatMap fun b =>
    if b = 126 then text "~0" else if b = Ascii.slash then text "~1" else [b]

/-- A place in messages. It counts as a field unless its last step is an index. -/
def placeName (steps : List Bytes) : Bytes :=
  let last := steps.getLastD []
  let name := (text ".").intercalate (steps.map placeStep)
  if name = [] then text "Go value"
  else if last ≠ [] ∧ last.all Json.isDigit then Ascii.dot :: name
  else text "Go struct field ." ++ name

def unfitting (value place : Bytes) (wanted : String) : Bytes :=
  text "json: cannot unmarshal " ++ value ++ text " into " ++ place ++ text " of type " ++
    text wanted

/-! ## Values -/

def numberSetting (steps : List Bytes) (n : Number) : Except Bytes Setting :=
  match Decimal.double.ofDecimal? n.significand n.power with
  | some bits =>
    let bits := if n.negative then Decimal.double.negate bits else bits
    return .number (Decimal.double.renderPlain bits)
  | none => throw (unfitting (text "number " ++ n.lexeme) (placeName steps) "float64")

mutual

def settingOf (steps : List Bytes) : Value → Except Bytes Setting
  | .null => return .null
  | .bool value => return .bool value
  | .number value => numberSetting steps value
  | .string value => return .string value
  | .array items => return .list (← itemSettings steps 0 items)
  | .object fields => return .table (← fieldSettings steps fields)

def itemSettings (steps : List Bytes) (index : Nat) : List Value → Except Bytes (List Setting)
  | [] => return []
  | item :: rest => do
    let first ← settingOf (steps ++ [Text.ofNat index]) item
    return first :: (← itemSettings steps (index + 1) rest)

def fieldSettings (steps : List Bytes) :
    List (Bytes × Value) → Except Bytes (List (Bytes × Setting))
  | [] => return []
  | (key, value) :: rest => do
    let first ← settingOf (steps ++ [key]) value
    return (key, first) :: (← fieldSettings steps rest)

end

def readJson (s : Bytes) : Except Bytes (List (Bytes × Setting)) := do
  match ← Json.read s with
  | .object fields => fieldSettings [] fields
  | .null => return []
  | other => throw (unfitting other.kind (text "Go value") "map[string]interface \x7b\x7d")

end ClassHeader.Config
