import ClassHeader.Text.Quoted

/-!
# Reading JSON

A reader for JSON texts that tells what it did not expect, and where it was.
-/

namespace ClassHeader.Json

/-! ## Values

Numbers keep their spelling, because a number may be beyond what its reader can hold
and is then shown as it was written. -/

structure Number where
  lexeme : Bytes
  negative : Bool
  significand : Nat
  power : Int

inductive Value where
  | null
  | bool (value : Bool)
  | number (value : Number)
  | string (value : Bytes)
  | array (items : List Value)
  /-- Fields in the order of the text; a name may come again. -/
  | object (fields : List (Bytes × Value))

def Value.kind : Value → Bytes
  | .null => text "null"
  | .bool _ => text "bool"
  | .number _ => text "number"
  | .string _ => text "string"
  | .array _ => text "array"
  | .object _ => text "object"

/-! ## Reading -/

abbrev Parse (α : Type) := Bytes → Except Bytes (α × Bytes)

def unexpected {α : Type} (place : String) : Bytes → Except Bytes α
  | [] => throw (text "unexpected end of JSON input")
  | s => throw (text "invalid character " ++ Text.quotedFront s ++ text " " ++ text place)

def isBlank (b : UInt8) : Bool := b = 32 || b = 9 || b = 10 || b = 13

def skip (s : Bytes) : Bytes := s.dropWhile isBlank

def isDigit (b : UInt8) : Bool := 48 ≤ b && b ≤ 57

def literal (word : String) : (rest : List Char) → (value : Value) → Parse Value
  | [], value, s => return (value, s)
  | c :: rest, value, s =>
    match s with
    | b :: s' =>
      if b.toNat = c.toNat then literal word rest value s'
      else throw (text "invalid character " ++ Text.quotedFront s ++ text " in literal " ++
        text word ++ text " (expecting '" ++ Text.ofChars [c] ++ text "')")
    | [] => unexpected "" []

/-! ## Numbers -/

def digits : Parse Bytes := fun s =>
  match s.takeWhile isDigit with
  | [] => unexpected "in numeric literal" s
  | found => return (found, s.dropWhile isDigit)

def naturalOf (digits : Bytes) : Nat := digits.foldl (fun n b => n * 10 + (b.toNat - 48)) 0

def wholePart : Parse Bytes
  | 48 :: s => return ([48], s)
  | s => digits s

def fractionPart : Parse Bytes
  | 46 :: s => digits s
  | s => return ([], s)

def exponentPart : Parse Int := fun s =>
  let signed := fun (sign : Int) (s : Bytes) => do
    let (found, rest) ← digits s
    return (sign * naturalOf found, rest)
  match s with
  | b :: s' =>
    if b = 101 ∨ b = 69 then
      match s' with
      | 43 :: rest => signed 1 rest
      | 45 :: rest => signed (-1) rest
      | _ => signed 1 s'
    else return (0, s)
  | [] => return (0, s)

def number : Parse Number := fun s => do
  let negative := s.head? = some 45
  let (whole, rest) ← wholePart (if negative then s.drop 1 else s)
  let (fraction, rest) ← fractionPart rest
  let (exponent, rest) ← exponentPart rest
  let found : Number := {
    lexeme := s.take (s.length - rest.length), negative
    significand := naturalOf (whole ++ fraction), power := exponent - fraction.length }
  return (found, rest)

/-! ## Strings -/

def hexDigit? (b : UInt8) : Option Nat :=
  if isDigit b then some (b.toNat - 48)
  else if 97 ≤ b ∧ b ≤ 102 then some (b.toNat - 87)
  else if 65 ≤ b ∧ b ≤ 70 then some (b.toNat - 55)
  else none

def badEscape {α : Type} (shown : Bytes) : Except Bytes α :=
  let readable := (Utf8.runes shown).all fun
    | .char c => c.toNat ≠ 96 && c ≠ '\uFFFD' && !Text.isBlankChar c && Text.isPrintable c
    | .stray _ => false
  let shown := if readable then text "`" ++ shown ++ text "`" else Text.quoted shown
  throw (text "invalid escape sequence " ++ shown ++ text " in string")

def unit : Parse Nat := fun s =>
  let taken := s.take 4
  match taken.mapM hexDigit? with
  | some found =>
    if found.length < 4 then unexpected "" []
    else return (found.foldl (fun n d => n * 16 + d) 0, s.drop 4)
  | none => badEscape (92 :: 117 :: taken)

/-- The character of a code unit and the unit escaped behind it, which counts only when the two
are a surrogate pair. -/
def characterAt (first : Nat) (s : Bytes) : Char × Bytes :=
  if 0xD800 ≤ first ∧ first < 0xE000 then
    match s with
    | 92 :: 117 :: rest =>
      match unit rest with
      | .ok (second, rest) =>
        if first < 0xDC00 ∧ 0xDC00 ≤ second ∧ second < 0xE000 then
          (Char.ofNat (0x10000 + (first - 0xD800) * 0x400 + (second - 0xDC00)), rest)
        else ('\uFFFD', s)
      | .error _ => ('\uFFFD', s)
    | _ => ('\uFFFD', s)
  else (Char.ofNat first, s)

def simpleEscapes : List (UInt8 × UInt8) :=
  [(34, 34), (92, 92), (47, 47), (98, 8), (102, 12), (110, 10), (114, 13), (116, 9)]

def escape : Parse Bytes
  | 117 :: s => do
    let (first, s) ← unit s
    let (c, s) := characterAt first s
    return (Text.ofChars [c], s)
  | b :: s =>
    match simpleEscapes.lookup b with
    | some value => return ([value], s)
    | none => badEscape [92, b]
  | [] => unexpected "" []

def stringBody : (fuel : Nat) → Parse Bytes
  | 0, s => unexpected "in string" s
  | fuel + 1, s =>
    match s with
    | 34 :: rest => return ([], rest)
    | 92 :: rest => do
      let (found, rest) ← escape rest
      let (behind, rest) ← stringBody fuel rest
      return (found ++ behind, rest)
    | b :: rest =>
      if b < 32 then unexpected "in string" s
      else do
        let (behind, rest) ← stringBody fuel rest
        return (b :: behind, rest)
    | [] => unexpected "" []

def string : Parse Bytes := fun s => do
  let (found, rest) ← stringBody (s.length + 1) s
  return (Text.ofChars (Utf8.lossyChars found), rest)

/-! ## Values -/

def maxDepth : Nat := 10000

def tooDeep {α : Type} : Except Bytes α := throw (text "exceeded max depth")

mutual

def value : (fuel : Nat) → (depth : Nat) → Parse Value
  | 0, _, s => unexpected "looking for beginning of value" s
  | fuel + 1, depth, s =>
    match skip s with
    | 123 :: rest =>
      if depth = 0 then tooDeep
      else match skip rest with
        | 125 :: rest => return (.object [], rest)
        | rest => do
          let (fields, rest) ← fieldsFrom fuel (depth - 1) rest
          return (.object fields, rest)
    | 91 :: rest =>
      if depth = 0 then tooDeep
      else match skip rest with
        | 93 :: rest => return (.array [], rest)
        | rest => do
          let (items, rest) ← itemsFrom fuel (depth - 1) rest
          return (.array items, rest)
    | 34 :: rest => do
      let (found, rest) ← string rest
      return (.string found, rest)
    | 116 :: rest => literal "true" ['r', 'u', 'e'] (.bool true) rest
    | 102 :: rest => literal "false" ['a', 'l', 's', 'e'] (.bool false) rest
    | 110 :: rest => literal "null" ['u', 'l', 'l'] .null rest
    | b :: rest =>
      if b = 45 ∨ isDigit b then do
        let (found, rest) ← number (b :: rest)
        return (.number found, rest)
      else unexpected "looking for beginning of value" (b :: rest)
    | [] => unexpected "" []

def fieldsFrom : (fuel : Nat) → (depth : Nat) → Parse (List (Bytes × Value))
  | 0, _, s => unexpected "looking for beginning of object key string" s
  | fuel + 1, depth, s =>
    match skip s with
    | 34 :: rest => do
      let (key, rest) ← string rest
      match skip rest with
      | 58 :: rest =>
        let (found, rest) ← value fuel depth rest
        match skip rest with
        | 44 :: rest =>
          let (fields, rest) ← fieldsFrom fuel depth rest
          return ((key, found) :: fields, rest)
        | 125 :: rest => return ([(key, found)], rest)
        | rest => unexpected "after object key:value pair" rest
      | rest => unexpected "after object key" rest
    | rest => unexpected "looking for beginning of object key string" rest

def itemsFrom : (fuel : Nat) → (depth : Nat) → Parse (List Value)
  | 0, _, s => unexpected "looking for beginning of value" s
  | fuel + 1, depth, s => do
    let (found, rest) ← value fuel depth s
    match skip rest with
    | 44 :: rest =>
      let (items, rest) ← itemsFrom fuel depth rest
      return (found :: items, rest)
    | 93 :: rest => return ([found], rest)
    | rest => unexpected "after array element" rest

end

def read (s : Bytes) : Except Bytes Value := do
  -- Going down to an item and into its value are two steps for one byte at least.
  let (found, rest) ← value (2 * s.length + 2) maxDepth s
  match skip rest with
  | [] => return found
  | rest => unexpected "after top-level value" rest

end ClassHeader.Json
