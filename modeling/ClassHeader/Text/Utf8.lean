import ClassHeader.Text.Basic

/-!
# Characters in byte text

Reading byte text character by character. A byte that starts no well-formed
UTF-8 sequence (shortest form, no surrogates, at most U+10FFFF) is a stray byte
of its own, and reading goes on right behind it.
-/

namespace ClassHeader

inductive Rune where
  | char (c : Char)
  | stray (b : UInt8)
  deriving DecidableEq, Repr

namespace Utf8

def isTail (b : UInt8) : Bool := 0x80 ≤ b && b ≤ 0xBF

def tailBits (b : UInt8) : Nat := b.toNat % 64

def first? : Bytes → Option (Char × Bytes)
  | [] => none
  | a :: s =>
    if a < 0x80 then some (Char.ofNat a.toNat, s)
    else if a < 0xC2 then none
    else if a < 0xE0 then
      match s with
      | b :: s =>
        if isTail b then some (Char.ofNat (a.toNat % 32 * 64 + tailBits b), s) else none
      | _ => none
    else if a < 0xF0 then
      match s with
      | b :: c :: s =>
        if isTail b && isTail c && !(a == 0xE0 && b < 0xA0) && !(a == 0xED && 0x9F < b) then
          some (Char.ofNat (a.toNat % 16 * 4096 + tailBits b * 64 + tailBits c), s)
        else none
      | _ => none
    else if a < 0xF5 then
      match s with
      | b :: c :: d :: s =>
        if isTail b && isTail c && isTail d && !(a == 0xF0 && b < 0x90) &&
            !(a == 0xF4 && 0x8F < b) then
          some (Char.ofNat (a.toNat % 8 * 262144 + tailBits b * 4096 + tailBits c * 64 +
            tailBits d), s)
        else none
      | _ => none
    else none

theorem first?_length {s rest : Bytes} {c : Char} (h : first? s = some (c, rest)) :
    rest.length < s.length := by
  unfold first? at h
  split at h
  · simp at h
  · repeat' split at h
    all_goals (simp only [Option.some.injEq, Prod.mk.injEq, reduceCtorEq] at h)
    all_goals (obtain ⟨_, rfl⟩ := h; simp +arith)

/-- The character at the front, or U+FFFD for a stray byte, and the text behind it. -/
def firstLossy? : Bytes → Option (Char × Bytes)
  | [] => none
  | b :: s => some ((first? (b :: s)).getD ('\uFFFD', s))

def runes (s : Bytes) : List Rune :=
  match _h : first? s with
  | some (c, rest) => .char c :: runes rest
  | none =>
    match s with
    | [] => []
    | b :: rest => .stray b :: runes rest
termination_by s.length
decreasing_by
  · exact first?_length _h
  · simp

def chars? (s : Bytes) : Option (List Char) :=
  (runes s).mapM fun
    | .char c => some c
    | .stray _ => none

def isValid (s : Bytes) : Bool := (chars? s).isSome

/-- Each stray byte becomes U+FFFD. -/
def lossyChars (s : Bytes) : List Char :=
  (runes s).map fun
    | .char c => c
    | .stray _ => '\uFFFD'

end Utf8

namespace Text

/-! ## White space -/

def blankRanges : List (Nat × Nat) :=
  [(0x09, 0x0D), (0x20, 0x20), (0x85, 0x85), (0xA0, 0xA0), (0x1680, 0x1680), (0x2000, 0x200A),
    (0x2028, 0x2029), (0x202F, 0x202F), (0x205F, 0x205F), (0x3000, 0x3000)]

def isBlankChar (c : Char) : Bool :=
  blankRanges.any fun (first, last) => first ≤ c.toNat && c.toNat ≤ last

/-- Whether a text holds white space only. Stray bytes are not white space. -/
def isBlank (s : Bytes) : Bool := (Utf8.lossyChars s).all isBlankChar

end Text
end ClassHeader
