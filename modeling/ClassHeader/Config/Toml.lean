import ClassHeader.Config.Basic

/-!
# Configuration files in TOML

Configurations are written as TOML, with literal strings where they can be. The
reader takes the part of TOML that is written: tables, and keys with strings,
flags, numbers and lists on one line each.
-/

namespace ClassHeader.Toml

/-! ## Writing -/

def isSpecial (b : UInt8) : Bool := b = 39 || (b < 32 && b ≠ 9) || b = 127

def escapeByte (b : UInt8) : Bytes :=
  if b = 92 then text "\\\\"
  else if b = 34 then text "\\\""
  else if b = 8 then text "\\b"
  else if b = 9 then text "\\t"
  else if b = 10 then text "\\n"
  else if b = 12 then text "\\f"
  else if b = 13 then text "\\r"
  else if b < 32 ∨ b = 127 then text "\\u00" ++ Text.asciiUpper (Text.hex 2 b.toNat)
  else [b]

def string (s : Bytes) : Bytes :=
  if s.any isSpecial then text "\"" ++ s.flatMap escapeByte ++ text "\""
  else text "'" ++ s ++ text "'"

def flag (b : Bool) : Bytes := text (if b then "true" else "false")

def list (items : List Bytes) : Bytes :=
  text "[" ++ (text ", ").intercalate (items.map string) ++ text "]"

def line (key : String) (value : Bytes) : Bytes := text key ++ text " = " ++ value ++ text "\n"

end Toml

def Config.encode (c : Config) : Bytes :=
  open Toml in
  line "output" (string c.output) ++ line "edges" (string c.edges) ++
    line "index_cache" (string c.indexCache) ++ line "classpath" (list c.classPath) ++
    line "verify" (flag c.verify) ++ line "disassemble" (flag c.disassemble) ++
    text "\n[resolver]\n" ++ line "ignore_attributes" (list c.ignoreAttributes) ++
    text "\n[log]\n" ++ line "level" (string c.logLevel) ++ line "format" (string c.logFormat)

/-! ## Reading -/

namespace Toml

def isBlank (b : UInt8) : Bool := b = 32 || b = 9

def skip (s : Bytes) : Bytes := s.dropWhile isBlank

def isWordByte (b : UInt8) : Bool :=
  (48 ≤ b && b ≤ 57) || (65 ≤ b && b ≤ 90) || (97 ≤ b && b ≤ 122) || b = 95 || b = 45 ||
    b = 46 || b = 43

def malformed : Bytes := text "toml: expected a value"

def numberOf? (digits : Bytes) : Option Nat :=
  digits.foldlM (fun n b =>
    if 48 ≤ b ∧ b ≤ 57 then some (n * 16 + (b.toNat - 48))
    else if 65 ≤ b ∧ b ≤ 70 then some (n * 16 + (b.toNat - 55))
    else if 97 ≤ b ∧ b ≤ 102 then some (n * 16 + (b.toNat - 87))
    else none) 0

def unescape? : Bytes → Option (Bytes × Bytes)
  | 98 :: s => some ([8], s)
  | 116 :: s => some ([9], s)
  | 110 :: s => some ([10], s)
  | 102 :: s => some ([12], s)
  | 114 :: s => some ([13], s)
  | 34 :: s => some ([34], s)
  | 92 :: s => some ([92], s)
  | 117 :: s => do some (Text.ofChars [Char.ofNat (← numberOf? (s.take 4))], s.drop 4)
  | 85 :: s => do some (Text.ofChars [Char.ofNat (← numberOf? (s.take 8))], s.drop 8)
  | _ => none

def basicString : (fuel : Nat) → Bytes → Except Bytes (Bytes × Bytes)
  | 0, _ | _, [] => throw malformed
  | fuel + 1, b :: s =>
    if b = 34 then return ([], s)
    else if b = 92 then
      match unescape? s with
      | some (found, rest) => do
        let (behind, rest) ← basicString fuel rest
        return (found ++ behind, rest)
      | none => throw malformed
    else do
      let (behind, rest) ← basicString fuel s
      return (b :: behind, rest)

mutual

def value : (fuel : Nat) → Bytes → Except Bytes (Setting × Bytes)
  | 0, _ => throw malformed
  | fuel + 1, s =>
    match s with
    | 39 :: rest =>
      match rest.dropWhile (· ≠ 39) with
      | _ :: behind => return (.string (rest.takeWhile (· ≠ 39)), behind)
      | [] => throw malformed
    | 34 :: rest => do
      let (found, behind) ← basicString (rest.length + 1) rest
      return (.string found, behind)
    | 91 :: rest => do
      let (items, behind) ← itemsFrom fuel (skip rest)
      return (.list items, behind)
    | _ =>
      let word := s.takeWhile isWordByte
      let behind := s.dropWhile isWordByte
      if word = text "true" then return (.bool true, behind)
      else if word = text "false" then return (.bool false, behind)
      else if word = [] then throw malformed
      else return (.number word, behind)

def itemsFrom : (fuel : Nat) → Bytes → Except Bytes (List Setting × Bytes)
  | 0, _ => throw malformed
  | fuel + 1, s =>
    match s with
    | 93 :: rest => return ([], rest)
    | _ => do
      let (item, behind) ← value fuel s
      match skip behind with
      | 44 :: rest =>
        let (items, behind) ← itemsFrom fuel (skip rest)
        return (item :: items, behind)
      | 93 :: rest => return ([item], rest)
      | _ => throw malformed

end

def isLineEnd (s : Bytes) : Bool :=
  let s := skip s
  s = [] || s = [13] || s.head? = some 35

/-- The settings so far, under keys that name their table, too. -/
structure State where
  table : Bytes := []
  fields : List (Bytes × Setting) := []

def readLine (st : State) (s : Bytes) : Except Bytes State := do
  let s := skip s
  if isLineEnd s then return st
  match s with
  | 91 :: rest =>
    let name := rest.takeWhile (· ≠ 93)
    if isLineEnd ((rest.dropWhile (· ≠ 93)).drop 1) then return { st with table := name }
    else throw malformed
  | _ =>
    let key := s.takeWhile isWordByte
    match skip (s.dropWhile isWordByte) with
    | 61 :: rest =>
      let (found, behind) ← value (rest.length + 1) (skip rest)
      if isLineEnd behind ∧ key ≠ [] then
        let name := if st.table = [] then key else st.table ++ Ascii.dot :: key
        return { st with fields := st.fields ++ [(name, found)] }
      else throw malformed
    | _ => throw malformed

def parse (s : Bytes) : Except Bytes (List (Bytes × Setting)) := do
  return (← (Text.splitOn Ascii.newline s).foldlM readLine {}).fields

end ClassHeader.Toml
