/-!
# Byte text

Names, messages and generated code are byte sequences: class files may carry
text that is no well-formed UTF-8, and every stage hands such text on unchanged.
-/

namespace ClassHeader

/-- Text as it stands in a file: bytes, not necessarily well-formed UTF-8. -/
abbrev Bytes := List UInt8

instance : LawfulBEq Bytes := inferInstanceAs (LawfulBEq (List UInt8))

/-! ## Bytes with a meaning of their own -/

namespace Ascii

abbrev newline : UInt8 := 10
abbrev carriageReturn : UInt8 := 13
abbrev blank : UInt8 := 32
abbrev openParen : UInt8 := 40
abbrev closeParen : UInt8 := 41
abbrev comma : UInt8 := 44
abbrev minus : UInt8 := 45
abbrev dot : UInt8 := 46
abbrev slash : UInt8 := 47
abbrev zero : UInt8 := 48
abbrev colon : UInt8 := 58
abbrev semicolon : UInt8 := 59
abbrev openBracket : UInt8 := 91
abbrev backslash : UInt8 := 92
abbrev underscore : UInt8 := 95
abbrev classMark : UInt8 := 76
abbrev voidMark : UInt8 := 86

end Ascii

/-! ## Building and taking apart -/

namespace Text

def ofChars (chars : List Char) : Bytes :=
  chars.flatMap String.utf8EncodeChar

def digits (base width n : Nat) : Bytes :=
  let shown := ofChars (Nat.toDigits base n)
  List.replicate (width - shown.length) Ascii.zero ++ shown

def ofNat (n : Nat) : Bytes := digits 10 1 n

def ofInt : Int → Bytes
  | .ofNat n => ofNat n
  | .negSucc n => Ascii.minus :: ofNat (n + 1)

def hex (width n : Nat) : Bytes := digits 16 width n

def asciiUpper (s : Bytes) : Bytes :=
  s.map fun b => if 97 ≤ b ∧ b ≤ 122 then b - 32 else b

def hexDump (data : Bytes) : Bytes := data.flatMap fun b => hex 2 b.toNat

def contains (part : Bytes) : Bytes → Bool
  | [] => part.isEmpty
  | b :: rest => part.isPrefixOf (b :: rest) || contains part rest

/-- The pieces between the occurrences of a separator byte; one more piece than separators. -/
def splitOn (sep : UInt8) : Bytes → List Bytes
  | [] => [[]]
  | b :: rest =>
    if b = sep then [] :: splitOn sep rest
    else match splitOn sep rest with
      | [] => [[b]]
      | piece :: pieces => (b :: piece) :: pieces

def dropTail (tail s : Bytes) : Bytes :=
  if tail.isSuffixOf s then s.take (s.length - tail.length) else s

def splitLast? (sep : UInt8) : Bytes → Option (Bytes × Bytes)
  | [] => none
  | b :: rest =>
    match splitLast? sep rest with
    | some (before, after) => some (b :: before, after)
    | none => if b = sep then some ([], rest) else none

def replace (old new : UInt8) (s : Bytes) : Bytes :=
  s.map fun b => if b = old then new else b

/-- Bytewise order, the shorter text first when one continues the other. -/
def le : Bytes → Bytes → Bool
  | [], _ => true
  | _ :: _, [] => false
  | a :: s, b :: t => a < b || (a == b && le s t)

def padLeft (width : Nat) (s : Bytes) : Bytes :=
  List.replicate (width - s.length) Ascii.blank ++ s

end Text

def text (s : String) : Bytes := Text.ofChars s.toList

/-! ## Netstrings

Lists of texts as one text: each behind its length and a colon, so that any bytes
can stand in it. -/

namespace Netstring

def encode (parts : List Bytes) : Bytes :=
  parts.flatMap fun part => Text.ofNat part.length ++ Ascii.colon :: part

def isDigit (b : UInt8) : Bool := 48 ≤ b && b ≤ 57

def numberOf (digits : Bytes) : Nat := digits.foldl (fun n b => n * 10 + (b.toNat - 48)) 0

def next? (s : Bytes) : Option (Bytes × Bytes) :=
  match s.dropWhile isDigit with
  | 58 :: rest =>
    let length := numberOf (s.takeWhile isDigit)
    if length ≤ rest.length ∧ s.head?.any isDigit then some (rest.take length, rest.drop length)
    else none
  | _ => none

/-- Each text takes at least its colon, so the length of `s` is fuel enough. -/
def decodeFrom? : (fuel : Nat) → Bytes → Option (List Bytes)
  | _, [] => some []
  | 0, _ => none
  | fuel + 1, s => do
    let (part, rest) ← next? s
    return part :: (← decodeFrom? fuel rest)

def decode? (s : Bytes) : Option (List Bytes) := decodeFrom? s.length s

end Netstring
end ClassHeader
