import ClassHeader.Cpp.Name
import ClassHeader.Proofs.Text.Utf8

/-!
# Names and their identifiers

Every identifier leads back to the characters of the one name it stands for. An
underscore in an escaped name opens an escape; where it opens none, the name is a
special method, starts with a digit or is empty. A reserved word behind which an
underscore stands is no escaped name, so that last underscore can be told apart as
well.
-/

namespace ClassHeader.Cpp

open Text (hexValue)

-- ---------------------------------------------------------------------------
-- Escapes
-- ---------------------------------------------------------------------------

/-- The characters of an escaped text; nothing when an underscore in it opens no escape. -/
def unescape? : Bytes → Option (List Char)
  | [] => some []
  | b :: s =>
    if b = Ascii.underscore then
      match s with
      | [] => none
      | mark :: s =>
        if mark = Ascii.underscore then (unescape? s).map ('_' :: ·)
        else if mark = 83 then (unescape? s).map ('$' :: ·)
        else if mark = 117 then
          match s with
          | a :: b :: c :: d :: s => (unescape? s).map (Char.ofNat (hexValue [a, b, c, d]) :: ·)
          | _ => none
        else if mark = 85 then
          match s with
          | a :: b :: c :: d :: e :: f :: g :: h :: s =>
            (unescape? s).map (Char.ofNat (hexValue [a, b, c, d, e, f, g, h]) :: ·)
          | _ => none
        else none
    else (unescape? s).map (Char.ofNat b.toNat :: ·)

theorem text_underscore : text "_" = [Ascii.underscore] := by
  decide

theorem unescape?_cons {b : UInt8} (h : b ≠ Ascii.underscore) (s : Bytes) :
    unescape? (b :: s) = (unescape? s).map (Char.ofNat b.toNat :: ·) := by
  conv_lhs => unfold unescape?
  rw [if_neg h]

theorem unescape?_underscore (s : Bytes) :
    unescape? (text "__" ++ s) = (unescape? s).map ('_' :: ·) := by
  rw [show text "__" = [95, 95] by decide]
  conv_lhs => unfold unescape?
  rfl

theorem unescape?_dollar (s : Bytes) :
    unescape? (text "_S" ++ s) = (unescape? s).map ('$' :: ·) := by
  rw [show text "_S" = [95, 83] by decide]
  conv_lhs => unfold unescape?
  rfl

theorem unescape?_short {digits : Bytes} (h : digits.length = 4) (s : Bytes) :
    unescape? (text "_u" ++ digits ++ s) =
      (unescape? s).map (Char.ofNat (hexValue digits) :: ·) := by
  rw [show text "_u" = [95, 117] by decide]
  match digits, h with
  | [a, b, c, d], _ =>
    conv_lhs => unfold unescape?
    rfl

theorem unescape?_long {digits : Bytes} (h : digits.length = 8) (s : Bytes) :
    unescape? (text "_U" ++ digits ++ s) =
      (unescape? s).map (Char.ofNat (hexValue digits) :: ·) := by
  rw [show text "_U" = [95, 85] by decide]
  match digits, h with
  | [a, b, c, d, e, f, g, h], _ =>
    conv_lhs => unfold unescape?
    rfl

def escapeMarks : List UInt8 := [Ascii.underscore, 83, 117, 85]

theorem unescape?_unmarked {b : UInt8} (h : b ∉ escapeMarks) (s : Bytes) :
    unescape? (text "_" ++ b :: s) = none := by
  simp only [escapeMarks, List.mem_cons, List.not_mem_nil, or_false, not_or] at h
  rw [text_underscore, List.singleton_append]
  conv_lhs => unfold unescape?
  simp only [↓reduceIte]
  rw [if_neg h.1, if_neg h.2.1, if_neg h.2.2.1, if_neg h.2.2.2]

theorem notMem_escapeMarks_of_le {b : UInt8} (h : b.toNat ≤ 57) : b ∉ escapeMarks := by
  have hmarks : ∀ mark ∈ escapeMarks, 57 < mark.toNat := by simp [escapeMarks, Ascii.underscore]
  exact fun hmem => Nat.not_lt.mpr h (hmarks b hmem)

theorem unescape?_digit {b : UInt8} (h : b.toNat ≤ 57) (s : Bytes) :
    unescape? (text "_" ++ b :: s) = none :=
  unescape?_unmarked (notMem_escapeMarks_of_le h) s

theorem toNat_of_isDigit {c : Char} (h : c.isDigit = true) : 48 ≤ c.toNat ∧ c.toNat ≤ 57 := by
  simp only [Char.isDigit, Bool.and_eq_true, decide_eq_true_eq, UInt32.le_iff_toNat_le,
    ge_iff_le] at h
  exact h

theorem toNat_of_isAlpha {c : Char} (h : c.isAlpha = true) :
    65 ≤ c.toNat ∧ c.toNat ≤ 90 ∨ 97 ≤ c.toNat ∧ c.toNat ≤ 122 := by
  simp only [Char.isAlpha, Char.isUpper, Char.isLower, Bool.or_eq_true, Bool.and_eq_true,
    decide_eq_true_eq, UInt32.le_iff_toNat_le, ge_iff_le] at h
  exact h

theorem escapeChar_plain {c : Char} (h : (c.isAlpha || c.isDigit) = true) :
    ∃ b : UInt8, escapeChar c = [b] ∧ b.toNat = c.toNat ∧ b ≠ Ascii.underscore := by
  have hrange : c.toNat < 128 ∧ c.toNat ≠ 95 := by
    rcases Bool.or_eq_true_iff.mp h with halpha | hdigit
    · have := toNat_of_isAlpha halpha
      omega
    · have := toNat_of_isDigit hdigit
      omega
  have hbyte : (UInt8.ofNat c.toNat).toNat = c.toNat := Utf8.toNat_ofNat_of_lt (by omega)
  refine ⟨.ofNat c.toNat, ?_, hbyte, fun heq => ?_⟩
  · rw [escapeChar, if_pos h, Utf8.ofChars_singleton hrange.1]
  · rw [heq] at hbyte
    exact hrange.2 hbyte.symm

theorem unescape?_escapeChar (c : Char) (s : Bytes) :
    unescape? (escapeChar c ++ s) = (unescape? s).map (c :: ·) := by
  by_cases hplain : (c.isAlpha || c.isDigit) = true
  · obtain ⟨b, hescape, hbyte, hne⟩ := escapeChar_plain hplain
    rw [hescape, List.singleton_append, unescape?_cons hne, hbyte, Char.ofNat_toNat]
  · rw [escapeChar, if_neg hplain]
    split_ifs with hunderscore hdollar hshort
    · rw [hunderscore, unescape?_underscore]
    · rw [hdollar, unescape?_dollar]
    · rw [unescape?_short (Text.length_hex (by decide) (by omega)), Text.hexValue_hex,
        Char.ofNat_toNat]
    · have hbound : c.toNat < 16 ^ 8 := c.val.toNat_lt
      rw [unescape?_long (Text.length_hex (by decide) hbound), Text.hexValue_hex,
        Char.ofNat_toNat]

theorem unescape?_flatMap (chars : List Char) :
    unescape? (chars.flatMap escapeChar) = some chars := by
  induction chars with
  | nil => rfl
  | cons c chars ih => rw [List.flatMap_cons, unescape?_escapeChar, ih, Option.map_some]

-- ---------------------------------------------------------------------------
-- The name behind an identifier
-- ---------------------------------------------------------------------------

/-- How a name is written before reserved words are set apart. -/
inductive Escapes (name : Bytes) : Bytes → Prop
  | init (h : name = text "<init>") : Escapes name (text "_init")
  | clinit (h : name = text "<clinit>") : Escapes name (text "_clinit")
  | empty (h : Utf8.lossyChars name = []) : Escapes name (text "_")
  | digit {c : Char} {rest : List Char} (h : Utf8.lossyChars name = c :: rest)
    (hc : c.isDigit = true) : Escapes name (text "_" ++ (c :: rest).flatMap escapeChar)
  | plain {c : Char} {rest : List Char} (h : Utf8.lossyChars name = c :: rest)
    (hc : c.isDigit = false) : Escapes name ((c :: rest).flatMap escapeChar)

theorem escapes_escape (name : Bytes) : Escapes name (escape name) := by
  unfold escape
  split_ifs with hinit hclinit
  · exact .init hinit
  · exact .clinit hclinit
  · split
    · exact .empty ‹_›
    · rename_i c rest h
      cases hc : c.isDigit with
      | true => exact .digit h hc
      | false => exact .plain h hc

def bare (s : Bytes) : Bytes :=
  let word := Text.dropTail (text "_") s
  if isReserved word then word else s

def restore (s : Bytes) : Bytes :=
  match unescape? s with
  | some chars => Text.ofChars chars
  | none =>
    -- The first underscore opens no escape.
    let behind := s.drop 1
    if behind = text "init" then text "<init>"
    else if behind = text "clinit" then text "<clinit>"
    else Text.ofChars ((unescape? behind).getD [])

def demangle (s : Bytes) : Bytes := restore (bare s)

theorem isReserved_iff {s : Bytes} : isReserved s = true ↔ s ∈ reservedWords.map text := by
  rw [isReserved, decide_eq_true_iff]

/-- No reserved word starts or ends with an underscore, and with one behind it none is an escaped
text. -/
theorem reserved_underscores : ∀ w ∈ reservedWords.map text,
    w.head?.any (· ≠ Ascii.underscore) = true ∧ w.getLast?.any (· ≠ Ascii.underscore) = true ∧
      unescape? (w ++ text "_") = none := by
  decide +kernel

theorem isReserved_append_underscore (s : Bytes) : isReserved (s ++ text "_") = false := by
  refine eq_false_of_ne_true fun h => ?_
  have hlast := (reserved_underscores _ (isReserved_iff.mp h)).2.1
  rw [text_underscore, List.getLast?_append, List.getLast?_singleton] at hlast
  cases hlast

theorem Escapes.ne_reserved {name s : Bytes} (h : Escapes name s) :
    ∀ w ∈ reservedWords.map text, s ≠ w ++ text "_" := by
  rintro w hw rfl
  obtain ⟨hhead, -, hmarked⟩ := reserved_underscores w hw
  have hunderscore : ∀ s, w ++ text "_" ≠ text "_" ++ s := by
    intro s heq
    have hfirst := congrArg List.head? heq
    rw [text_underscore] at hfirst
    cases w with
    | nil => cases hhead
    | cons b w => simp_all
  -- An escaped text either starts with an underscore or can be unescaped; `w` with an underscore
  -- behind it does neither.
  generalize hs : w ++ text "_" = s at h hmarked
  cases h with
  | init h => exact hunderscore (text "init") (by rw [hs]; decide)
  | clinit h => exact hunderscore (text "clinit") (by rw [hs]; decide)
  | empty h => exact hunderscore [] hs
  | digit h hc => exact hunderscore _ hs
  | plain h hc =>
    rw [unescape?_flatMap] at hmarked
    cases hmarked

theorem dropTail_append (tail s : Bytes) : Text.dropTail tail (s ++ tail) = s := by
  simp [Text.dropTail]

theorem bare_unreserved {s : Bytes} (h : ∀ w ∈ reservedWords.map text, s ≠ w ++ text "_") :
    bare (unreserved s) = s := by
  by_cases hs : isReserved s = true
  · rw [unreserved, if_pos hs, bare, dropTail_append, if_pos hs]
  · rw [unreserved, if_neg hs, bare]
    refine ite_eq_right_iff.mpr fun hword => ?_
    by_cases htail : (text "_").isSuffixOf s = true
    · obtain ⟨word, rfl⟩ := List.isSuffixOf_iff_suffix.mp htail
      rw [dropTail_append] at hword
      exact absurd rfl (h word (isReserved_iff.mp hword))
    · rw [Text.dropTail, if_neg htail]

theorem restore_digit {c : Char} (hc : c.isDigit = true) (rest : List Char) :
    restore (text "_" ++ (c :: rest).flatMap escapeChar) = Text.ofChars (c :: rest) := by
  obtain ⟨b, hescape, hbyte, -⟩ := escapeChar_plain (Bool.or_eq_true_iff.mpr (.inr hc))
  have hb : b.toNat ≤ 57 := by
    rw [hbyte]
    exact (toNat_of_isDigit hc).2
  have hnone : unescape? (text "_" ++ (c :: rest).flatMap escapeChar) = none := by
    rw [List.flatMap_cons, hescape, List.singleton_append, unescape?_digit hb]
  have hbehind : (text "_" ++ (c :: rest).flatMap escapeChar).drop 1 =
      (c :: rest).flatMap escapeChar := by
    rw [text_underscore]
    rfl
  -- The names of the special methods start with letters, which come behind the digits.
  have hspecial : ∀ special : Bytes, special.head?.any (57 < ·.toNat) = true →
      (c :: rest).flatMap escapeChar ≠ special := by
    rintro special hhead rfl
    rw [List.flatMap_cons, hescape, List.singleton_append, List.head?_cons, Option.any_some,
      decide_eq_true_iff] at hhead
    omega
  rw [restore, hnone]
  dsimp only
  rw [hbehind, if_neg (hspecial _ (by decide)), if_neg (hspecial _ (by decide)),
    unescape?_flatMap, Option.getD_some]

theorem Escapes.restore {name s : Bytes} (h : Escapes name s) :
    restore s = Text.ofChars (Utf8.lossyChars name) := by
  cases h with
  | init h =>
    rw [h, Utf8.lossyChars_text]
    decide +kernel
  | clinit h =>
    rw [h, Utf8.lossyChars_text]
    decide +kernel
  | empty h =>
    rw [h]
    decide +kernel
  | digit h hc => rw [h, restore_digit hc]
  | plain h hc => rw [h, Cpp.restore, unescape?_flatMap]

theorem demangle_mangle_lossy (name : Bytes) :
    demangle (mangle name) = Text.ofChars (Utf8.lossyChars name) := by
  have hescapes := escapes_escape name
  rw [demangle, mangle, bare_unreserved hescapes.ne_reserved, hescapes.restore]

theorem demangle_mangle {name : Bytes} (h : Utf8.isValid name = true) :
    demangle (mangle name) = name := by
  obtain ⟨chars, rfl⟩ := Utf8.isValid_iff.mp h
  rw [demangle_mangle_lossy, Utf8.lossyChars_ofChars]

-- ---------------------------------------------------------------------------
-- Identifiers
-- ---------------------------------------------------------------------------

theorem isIdentRest_of_isHexDigit {b : UInt8} (h : Text.isHexDigit b = true) :
    isIdentRest b = true := by
  simp only [Text.isHexDigit, isIdentRest, isIdentStart, Bool.or_eq_true, Bool.and_eq_true,
    decide_eq_true_eq, UInt8.le_iff_toNat_le, UInt8.reduceToNat] at h ⊢
  omega

theorem isIdentRest_of_mem {s : Bytes} {b : UInt8} (hs : isIdentifier s = true) (hb : b ∈ s) :
    isIdentRest b = true := by
  cases s with
  | nil => cases hs
  | cons first s =>
    rw [isIdentifier, Bool.and_eq_true, List.all_eq_true] at hs
    rcases List.mem_cons.mp hb with rfl | hb
    · rw [isIdentRest, hs.1, Bool.true_or]
    · exact hs.2 b hb

theorem isIdentifier_append {s t : Bytes} (hs : isIdentifier s = true)
    (ht : ∀ b ∈ t, isIdentRest b = true) : isIdentifier (s ++ t) = true := by
  cases s with
  | nil => cases hs
  | cons b s =>
    simp only [isIdentifier, List.cons_append, Bool.and_eq_true, List.all_eq_true,
      List.mem_append] at hs ⊢
    exact ⟨hs.1, fun b' hb' => hb'.elim (hs.2 b') (ht b')⟩

theorem isIdentifier_escapeChar {c : Char} (hc : c.isDigit = false) :
    isIdentifier (escapeChar c) = true := by
  by_cases hplain : (c.isAlpha || c.isDigit) = true
  · obtain ⟨b, hescape, hbyte, -⟩ := escapeChar_plain hplain
    rw [hc, Bool.or_false] at hplain
    have hrange := toNat_of_isAlpha hplain
    rw [← hbyte] at hrange
    simp only [hescape, isIdentifier, isIdentStart, List.all_nil, Bool.and_true, Bool.or_eq_true,
      Bool.and_eq_true, decide_eq_true_eq, UInt8.le_iff_toNat_le, UInt8.reduceToNat]
    omega
  · rw [escapeChar, if_neg hplain]
    have hhex : ∀ {width n : Nat}, ∀ b ∈ Text.hex width n, isIdentRest b = true :=
      fun b hb => isIdentRest_of_isHexDigit (Text.isHexDigit_of_mem_hex hb)
    split_ifs
    · decide
    · decide
    · exact isIdentifier_append (by decide) hhex
    · exact isIdentifier_append (by decide) hhex

theorem isIdentRest_of_mem_flatMap {chars : List Char} {b : UInt8}
    (h : b ∈ chars.flatMap escapeChar) : isIdentRest b = true := by
  obtain ⟨c, -, hb⟩ := List.mem_flatMap.mp h
  cases hc : c.isDigit with
  | true =>
    obtain ⟨digit, hescape, hbyte, -⟩ := escapeChar_plain (Bool.or_eq_true_iff.mpr (.inr hc))
    have hrange := toNat_of_isDigit hc
    rw [hescape, List.mem_singleton] at hb
    rw [← hbyte, ← hb] at hrange
    simp [isIdentRest, UInt8.le_iff_toNat_le, hrange]
  | false => exact isIdentRest_of_mem (isIdentifier_escapeChar hc) hb

theorem Escapes.isIdentifier {name s : Bytes} (h : Escapes name s) : isIdentifier s = true := by
  cases h with
  | init h => decide
  | clinit h => decide
  | empty h => decide
  | digit h hc => exact isIdentifier_append (by decide) fun _ => isIdentRest_of_mem_flatMap
  | plain h hc =>
    rw [List.flatMap_cons]
    exact isIdentifier_append (isIdentifier_escapeChar hc) fun _ => isIdentRest_of_mem_flatMap

theorem isIdentifier_mangle (name : Bytes) : isIdentifier (mangle name) = true := by
  have h := (escapes_escape name).isIdentifier
  have hunderscore : isIdentifier (text "_") = true := by decide
  rw [mangle, unreserved]
  split_ifs
  · exact isIdentifier_append h fun _ => isIdentRest_of_mem hunderscore
  · exact h

theorem isReserved_mangle (name : Bytes) : isReserved (mangle name) = false := by
  rw [mangle, unreserved]
  split_ifs with h
  · exact isReserved_append_underscore _
  · exact eq_false_of_ne_true h

-- ---------------------------------------------------------------------------
-- Qualified names
-- ---------------------------------------------------------------------------

theorem colon_notMem_mangle (name : Bytes) : Ascii.colon ∉ mangle name := by
  intro h
  have hrest := isIdentRest_of_mem (isIdentifier_mangle name) h
  cases hrest

theorem splitScopes_append {front : Bytes} (hfront : Ascii.colon ∉ front) {s piece : Bytes}
    {pieces : List Bytes} (hs : splitScopes s = piece :: pieces) :
    splitScopes (front ++ s) = (front ++ piece) :: pieces := by
  induction front with
  | nil => exact hs
  | cons b front ih =>
    rw [List.mem_cons, not_or] at hfront
    rw [List.cons_append, splitScopes, ih hfront.2]
    · rfl
    · rintro rest rfl -
      exact hfront.1 rfl

def scopePath (parts : List Bytes) : Bytes := parts.flatMap fun part => text "::" ++ mangle part

theorem splitScopes_scopePath (parts : List Bytes) :
    splitScopes (scopePath parts) = [] :: parts.map mangle := by
  induction parts with
  | nil => rfl
  | cons part parts ih =>
    have hcons : scopePath (part :: parts) =
        Ascii.colon :: Ascii.colon :: (mangle part ++ scopePath parts) := by
      rw [scopePath, List.flatMap_cons, show text "::" = [Ascii.colon, Ascii.colon] by decide]
      rfl
    rw [hcons, splitScopes, splitScopes_append (colon_notMem_mangle part) ih, List.append_nil]
    rfl

theorem scopePath_eq_iff {parts others : List Bytes} :
    scopePath parts = scopePath others ↔ parts.map mangle = others.map mangle := by
  constructor
  · intro h
    have hpieces := congrArg splitScopes h
    rw [splitScopes_scopePath, splitScopes_scopePath] at hpieces
    exact List.tail_eq_of_cons_eq hpieces
  · intro h
    have hjoined := congrArg (List.flatMap (text "::" ++ ·)) h
    rwa [List.flatMap_map, List.flatMap_map] at hjoined

theorem scopePath_injOn :
    Set.InjOn scopePath {parts | ∀ part ∈ parts, Utf8.isValid part = true} := by
  intro parts hparts others hothers heq
  have hmangled : parts.map mangle = others.map mangle := scopePath_eq_iff.mp heq
  have hback : ∀ names : List Bytes, (∀ name ∈ names, Utf8.isValid name = true) →
      (names.map mangle).map demangle = names := by
    intro names hnames
    rw [List.map_map]
    exact (List.map_congr_left fun name hname => demangle_mangle (hnames name hname)).trans
      (List.map_id names)
  rw [← hback parts hparts, hmangled, hback others hothers]

/-- A slash in front would be lost: the package before it is the empty one. -/
theorem qualifiedName_eq {name : Bytes} (h : name.head? ≠ some Ascii.slash) :
    qualifiedName name = scopePath (Text.splitOn Ascii.slash name) := by
  rw [qualifiedName, splitClassName, Text.splitOn_eq_splitLast?]
  cases hlast : Text.splitLast? Ascii.slash name with
  | none => rfl
  | some parts =>
    obtain ⟨package, simple⟩ := parts
    have hpackage : package ≠ [] := by
      rintro rfl
      exact h (Text.head?_of_splitLast? hlast)
    rw [Option.getD_some]
    dsimp only
    rw [packageParts, if_neg hpackage]
    rfl

theorem isValid_of_mem_splitOn {name part : Bytes} (h : Utf8.isValid name = true)
    (hpart : part ∈ Text.splitOn Ascii.slash name) : Utf8.isValid part = true := by
  have hslash : Ascii.slash.toNat < 128 := by decide
  obtain ⟨chars, rfl⟩ := Utf8.isValid_iff.mp h
  obtain ⟨pieces, hpieces⟩ := Utf8.splitOn_ofChars hslash chars
  rw [hpieces, List.mem_map] at hpart
  obtain ⟨piece, -, rfl⟩ := hpart
  exact Utf8.isValid_iff.mpr ⟨piece, rfl⟩

/-- Different names have different identifiers, different classes different qualified names, and
whatever the bytes of a name are, its identifier is one that the compiler accepts. -/
theorem mangle_injOn_and_isIdentifier :
    Set.InjOn mangle {name | Utf8.isValid name = true} ∧
      Set.InjOn qualifiedName
        {name | Utf8.isValid name = true ∧ name.head? ≠ some Ascii.slash} ∧
      ∀ name : Bytes, isIdentifier (mangle name) = true ∧ isReserved (mangle name) = false := by
  refine ⟨?_, ?_, fun name => ⟨isIdentifier_mangle name, isReserved_mangle name⟩⟩
  · intro name hname other hother heq
    rw [← demangle_mangle hname, heq, demangle_mangle hother]
  · rintro name ⟨hname, hnameSlash⟩ other ⟨hother, hotherSlash⟩ heq
    rw [qualifiedName_eq hnameSlash, qualifiedName_eq hotherSlash] at heq
    refine Text.splitOn_injective Ascii.slash (scopePath_injOn ?_ ?_ heq)
    · exact fun part => isValid_of_mem_splitOn hname
    · exact fun part => isValid_of_mem_splitOn hother

end ClassHeader.Cpp
