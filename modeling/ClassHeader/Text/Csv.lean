import ClassHeader.Text.Utf8

/-!
# Comma-separated records

Fields on one line with commas between them. A field may stand between double
quotes; a comma or a line end then belongs to it, and a quote is written twice.
-/

namespace ClassHeader.Csv

/-- A place in a text; columns count bytes. Both numbers start at one. -/
structure Place where
  line : Nat
  column : Nat
  deriving DecidableEq, Repr

def Place.advance (p : Place) (count : Nat) : Place := { p with column := p.column + count }

inductive Problem where
  | noRecord
  | bareQuote (firstLine : Nat) (place : Place)
  /-- A closing quote with something behind it, or none at all. -/
  | unclosedQuote (firstLine : Nat) (place : Place)
  deriving DecidableEq, Repr

def placeMessage (firstLine : Nat) (place : Place) (detail : String) : Bytes :=
  (if firstLine = place.line then []
    else text "record on line " ++ Text.ofNat firstLine ++ text "; ") ++
    text "parse error on line " ++ Text.ofNat place.line ++ text ", column " ++
    Text.ofNat place.column ++ text ": " ++ text detail

def Problem.message : Problem → Bytes
  | .noRecord => text "EOF"
  | .bareQuote first place => placeMessage first place "bare \" in non-quoted field"
  | .unclosedQuote first place =>
    placeMessage first place "extraneous or missing \" in quoted-field"

/-! ## Reading -/

/-- The lines of a text with their ends, in which a return before a line feed is dropped, as is
one at the end of the text. -/
def lines (s : Bytes) : List Bytes :=
  let pieces := Text.splitOn Ascii.newline s
  let ended := pieces.dropLast.map fun piece =>
    Text.dropTail [Ascii.carriageReturn] piece ++ [Ascii.newline]
  match Text.dropTail [Ascii.carriageReturn] (pieces.getLastD []) with
  | [] => ended
  | last => ended ++ [last]

/-- What a field leaves: the rest of its line when another field follows, the place there, and the
lines behind. -/
structure Rest where
  line : Option Bytes
  place : Place
  more : List Bytes

def quotedField (firstLine : Nat) (more : List Bytes) (line : Bytes) (place : Place) :
    Except Problem (Bytes × Rest) :=
  match line with
  | 34 :: 34 :: line => do
    let (field, rest) ← quotedField firstLine more line (place.advance 2)
    return (34 :: field, rest)
  | 34 :: 44 :: line => return ([], ⟨some line, place.advance 2, more⟩)
  | 34 :: line =>
    if line = [] ∨ line = [Ascii.newline] then return ([], ⟨none, place.advance 1, more⟩)
    else throw (.unclosedQuote firstLine place)
  | b :: line => do
    let (field, rest) ← quotedField firstLine more line (place.advance 1)
    return (b :: field, rest)
  | [] =>
    match more with
    | next :: more => quotedField firstLine more next ⟨place.line + 1, 1⟩
    | [] => throw (.unclosedQuote firstLine place)
termination_by (more.length, line.length)

def plainField (firstLine : Nat) (more : List Bytes) (line : Bytes) (place : Place) :
    Except Problem (Bytes × Rest) :=
  let (field, rest) := match line.dropWhile (· ≠ Ascii.comma) with
    | _ :: behind => (line.takeWhile (· ≠ Ascii.comma), some behind)
    | [] => (Text.dropTail [Ascii.newline] line, none)
  match field.idxOf? 34 with
  | some i => throw (.bareQuote firstLine (place.advance i))
  | none => return (field, ⟨rest, place.advance (field.length + 1), more⟩)

/-- The fields from a place on. Each but the last ends with a comma, so there are not more than
bytes in the text and one. -/
def fieldsFrom (firstLine : Nat) : (fuel : Nat) → Rest → Except Problem (List Bytes)
  | 0, _ => return []
  | fuel + 1, ⟨line, place, more⟩ =>
    match line with
    | none => return []
    | some line => do
      let (field, rest) ← match line with
        | 34 :: line => quotedField firstLine more line (place.advance 1)
        | _ => plainField firstLine more line place
      return field :: (← fieldsFrom firstLine fuel rest)

def record (s : Bytes) : Except Problem (List Bytes) :=
  let all := lines s
  let isEmpty := fun line : Bytes => line = [Ascii.newline]
  let first := (all.takeWhile isEmpty).length + 1
  match all.dropWhile isEmpty with
  | [] => throw .noRecord
  | line :: more => fieldsFrom first (s.length + 1) ⟨some line, ⟨first, 1⟩, more⟩

def fields (s : Bytes) : Except Problem (List Bytes) := if s = [] then return [] else record s

/-! ## Writing -/

/-- Fields that would not be read as they are: a field that looks like a mark for the end of data,
one that starts with white space, and those with bytes of a meaning. -/
def needsQuotes (field : Bytes) : Bool :=
  field = text "\\." || field.any (fun b => b ∈ [10, 13, 34, 44]) ||
    ((Utf8.lossyChars field).head?.map Text.isBlankChar).getD false

def writeField (field : Bytes) : Bytes :=
  if needsQuotes field then
    [34] ++ field.flatMap (fun b => if b = 34 then [34, 34] else [b]) ++ [34]
  else field

def write (fields : List Bytes) : Bytes := (text ",").intercalate (fields.map writeField)

end ClassHeader.Csv
