import ClassHeader.Text.Utf8
import ClassHeader.Proofs.Text.Basic
import Mathlib

/-!
# Well-formed text

The reader of characters takes off exactly the sequences that characters are
written as, so well-formed text is the same as text written from characters. Any
other text is read with a replacement for each stray byte, piece by piece or as a
whole.
-/

namespace ClassHeader.Utf8

-- ---------------------------------------------------------------------------
-- Sequences of one character
-- ---------------------------------------------------------------------------

theorem toNat_ofNat {n : Nat} (h : n.isValidChar) : (Char.ofNat n).val.toNat = n := by
  rw [Char.ofNat, dif_pos h]
  simp [Char.ofNatAux]

theorem isTail_iff (b : UInt8) : isTail b = true ↔ 128 ≤ b.toNat ∧ b.toNat < 192 := by
  rw [isTail, Bool.and_eq_true, decide_eq_true_iff, decide_eq_true_iff, UInt8.le_iff_toNat_le,
    UInt8.le_iff_toNat_le]
  exact and_congr_right fun _ => Nat.lt_succ_iff.symm

/-- The well-formed sequences with the code of the character each of them spells. -/
inductive Spells : Nat → Bytes → Prop
  | one {a : UInt8} (ha : a.toNat < 128) : Spells a.toNat [a]
  | two {a b : UInt8} (ha : 194 ≤ a.toNat ∧ a.toNat < 224) (hb : isTail b = true) :
    Spells (a.toNat % 32 * 64 + tailBits b) [a, b]
  | three {a b c : UInt8} (ha : 224 ≤ a.toNat ∧ a.toNat < 240) (hb : isTail b = true)
    (hc : isTail c = true) (hshort : a.toNat = 224 → 160 ≤ b.toNat)
    (hsurrogate : a.toNat = 237 → b.toNat < 160) :
    Spells (a.toNat % 16 * 4096 + tailBits b * 64 + tailBits c) [a, b, c]
  | four {a b c d : UInt8} (ha : 240 ≤ a.toNat ∧ a.toNat < 245) (hb : isTail b = true)
    (hc : isTail c = true) (hd : isTail d = true) (hshort : a.toNat = 240 → 144 ≤ b.toNat)
    (hlast : a.toNat = 244 → b.toNat < 144) :
    Spells (a.toNat % 8 * 262144 + tailBits b * 4096 + tailBits c * 64 + tailBits d) [a, b, c, d]

theorem Spells.isValidChar {n : Nat} {bytes : Bytes} (h : Spells n bytes) : n.isValidChar := by
  rw [Nat.isValidChar]
  cases h with
  | one ha => omega
  | two ha hb => rw [tailBits]; omega
  | three ha hb hc hshort hsurrogate =>
    rw [isTail_iff] at hb hc
    rw [tailBits, tailBits]
    omega
  | four ha hb hc hd hshort hlast =>
    rw [isTail_iff] at hb hc hd
    rw [tailBits, tailBits, tailBits]
    omega

theorem Spells.first? {n : Nat} {bytes : Bytes} (h : Spells n bytes) (s : Bytes) :
    first? (bytes ++ s) = some (Char.ofNat n, s) := by
  cases h with
  | one ha => simp [Utf8.first?, UInt8.lt_iff_toNat_lt, ha]
  | two ha hb =>
    simp only [List.cons_append, List.nil_append, Utf8.first?, UInt8.lt_iff_toNat_lt,
      UInt8.reduceToNat]
    rw [if_neg (by omega), if_neg (by omega), if_pos (by omega), if_pos hb]
  | three ha hb hc hshort hsurrogate =>
    simp only [List.cons_append, List.nil_append, Utf8.first?, UInt8.lt_iff_toNat_lt,
      UInt8.reduceToNat]
    rw [if_neg (by omega), if_neg (by omega), if_neg (by omega), if_pos (by omega), if_pos]
    simp [hb, hc, ← UInt8.toNat_inj]
    omega
  | four ha hb hc hd hshort hlast =>
    simp only [List.cons_append, List.nil_append, Utf8.first?, UInt8.lt_iff_toNat_lt,
      UInt8.reduceToNat]
    rw [if_neg (by omega), if_neg (by omega), if_neg (by omega), if_neg (by omega),
      if_pos (by omega), if_pos]
    simp [hb, hc, hd, ← UInt8.toNat_inj]
    omega

theorem ofNat_eq_iff {n : Nat} {b : UInt8} (h : n < 256) : UInt8.ofNat n = b ↔ n = b.toNat := by
  rw [← UInt8.toNat_inj, UInt8.toNat_ofNat', Nat.mod_eq_of_lt h]

theorem Spells.utf8EncodeChar_eq {n : Nat} {bytes : Bytes} (h : Spells n bytes) :
    String.utf8EncodeChar (Char.ofNat n) = bytes := by
  have hvalid := h.isValidChar
  rw [String.utf8EncodeChar, toNat_ofNat hvalid]
  cases h with
  | one ha =>
    rw [if_pos (by omega), UInt8.ofNat_toNat]
  | two ha hb =>
    rw [isTail_iff] at hb
    rw [tailBits] at *
    rw [if_neg (by omega), if_pos (by omega)]
    simp (disch := omega) only [List.cons.injEq, and_true, ofNat_eq_iff]
    omega
  | three ha hb hc hshort hsurrogate =>
    rw [isTail_iff] at hb hc
    rw [tailBits, tailBits] at *
    rw [if_neg (by omega), if_neg (by omega), if_pos (by omega)]
    simp (disch := omega) only [List.cons.injEq, and_true, ofNat_eq_iff]
    omega
  | four ha hb hc hd hshort hlast =>
    rw [isTail_iff] at hb hc hd
    rw [tailBits, tailBits, tailBits] at *
    rw [if_neg (by omega), if_neg (by omega), if_neg (by omega)]
    simp (disch := omega) only [List.cons.injEq, and_true, ofNat_eq_iff]
    omega

theorem toNat_ofNat_of_lt {n : Nat} (h : n < 256) : (UInt8.ofNat n).toNat = n := by
  rw [UInt8.toNat_ofNat', Nat.mod_eq_of_lt h]

theorem spells_utf8EncodeChar (c : Char) : Spells c.toNat (String.utf8EncodeChar c) := by
  have hvalid : c.toNat < 0xD800 ∨ 0xDFFF < c.toNat ∧ c.toNat < 0x110000 := c.valid
  rw [String.utf8EncodeChar, Char.toNat_val]
  generalize c.toNat = n at hvalid
  split_ifs with hone htwo hthree
  · have h := Spells.one (a := .ofNat n) (by rw [toNat_ofNat_of_lt] <;> omega)
    rwa [toNat_ofNat_of_lt (by omega)] at h
  · convert Spells.two ?_ ?_ using 1
    all_goals
      simp (disch := omega) only [tailBits, isTail_iff, toNat_ofNat_of_lt]
      omega
  · convert Spells.three ?_ ?_ ?_ ?_ ?_ using 1
    all_goals
      simp (disch := omega) only [tailBits, isTail_iff, toNat_ofNat_of_lt]
      omega
  · convert Spells.four ?_ ?_ ?_ ?_ ?_ ?_ using 1
    all_goals
      simp (disch := omega) only [tailBits, isTail_iff, toNat_ofNat_of_lt]
      omega

theorem exists_spells_of_first? {s rest : Bytes} {c : Char} (h : first? s = some (c, rest)) :
    ∃ n bytes, Spells n bytes ∧ c = Char.ofNat n ∧ s = bytes ++ rest := by
  unfold Utf8.first? at h
  simp only [UInt8.lt_iff_toNat_lt, UInt8.reduceToNat] at h
  repeat' split at h
  all_goals simp only [Option.some.injEq, Prod.mk.injEq, reduceCtorEq] at h
  all_goals obtain ⟨rfl, rfl⟩ := h
  · exact ⟨_, _, .one ‹_›, rfl, rfl⟩
  · exact ⟨_, _, .two (by omega) ‹_›, rfl, rfl⟩
  · rename_i hguard
    simp [← UInt8.toNat_inj] at hguard
    exact ⟨_, _, .three (by omega) hguard.1.1.1 hguard.1.1.2 (by omega) (by omega), rfl, rfl⟩
  · rename_i hguard
    simp [← UInt8.toNat_inj] at hguard
    exact ⟨_, _, .four (by omega) hguard.1.1.1.1 hguard.1.1.1.2 hguard.1.1.2 (by omega)
      (by omega), rfl, rfl⟩

theorem first?_eq_some_iff {s rest : Bytes} {c : Char} :
    first? s = some (c, rest) ↔ s = String.utf8EncodeChar c ++ rest := by
  constructor
  · intro h
    obtain ⟨n, bytes, hspells, rfl, rfl⟩ := exists_spells_of_first? h
    rw [hspells.utf8EncodeChar_eq]
  · rintro rfl
    rw [(spells_utf8EncodeChar c).first?, Char.ofNat_toNat]

-- ---------------------------------------------------------------------------
-- Whole texts
-- ---------------------------------------------------------------------------

theorem runes_of_first? {s rest : Bytes} {c : Char} (h : first? s = some (c, rest)) :
    runes s = .char c :: runes rest := by
  rw [runes.eq_def]
  split
  · rename_i h'
    obtain ⟨rfl, rfl⟩ : _ ∧ _ := by simpa [h] using h'
    rfl
  · simp_all

@[simp]
theorem runes_ofChars (chars : List Char) : runes (Text.ofChars chars) = chars.map .char := by
  induction chars with
  | nil => rw [runes.eq_def]; rfl
  | cons c chars ih =>
    have hfirst : first? (Text.ofChars (c :: chars)) = some (c, Text.ofChars chars) :=
      first?_eq_some_iff.mpr List.flatMap_cons
    rw [runes_of_first? hfirst, ih, List.map_cons]

@[simp]
theorem lossyChars_ofChars (chars : List Char) : lossyChars (Text.ofChars chars) = chars := by
  simp [lossyChars, Function.comp_def]

theorem lossyChars_text (s : String) : lossyChars (text s) = s.toList :=
  lossyChars_ofChars s.toList

theorem text_injective : Function.Injective text := by
  intro s t h
  rw [← String.toList_inj, ← lossyChars_text s, h, lossyChars_text]

theorem chars?_eq_some_iff {s : Bytes} {chars : List Char} :
    chars? s = some chars ↔ s = Text.ofChars chars := by
  constructor
  · intro h
    rw [chars?] at h
    fun_induction runes s generalizing chars with
    | case1 s c rest hfirst ih =>
      simp only [List.mapM_cons, Option.pure_def, Option.bind_eq_bind, Option.bind_some,
        Option.bind_eq_some_iff, Option.some.injEq] at h
      obtain ⟨tail, hrest, rfl⟩ := h
      rw [first?_eq_some_iff.mp hfirst, ih hrest]
      rfl
    | case2 hfirst =>
      obtain rfl : [] = chars := by simpa using h
      rfl
    | case3 b rest hfirst ih => simp [List.mapM_cons] at h
  · rintro rfl
    rw [chars?, runes_ofChars]
    induction chars with
    | nil => rfl
    | cons c chars ih => simp [List.mapM_cons, ih]

theorem isValid_iff {s : Bytes} : isValid s = true ↔ ∃ chars, s = Text.ofChars chars := by
  simp only [isValid, Option.isSome_iff_exists, chars?_eq_some_iff]

-- ---------------------------------------------------------------------------
-- ASCII bytes
-- ---------------------------------------------------------------------------

theorem ofChars_singleton {c : Char} (h : c.toNat < 128) :
    Text.ofChars [c] = [UInt8.ofNat c.toNat] := by
  rw [Text.ofChars, List.flatMap_singleton, String.utf8EncodeChar, Char.toNat_val,
    if_pos (Nat.le_of_lt_succ h)]

theorem Spells.eq_singleton {n : Nat} {bytes : Bytes} {b : UInt8} (h : Spells n bytes)
    (hb : b ∈ bytes) (hascii : b.toNat < 128) : bytes = [b] := by
  cases h with
  | one ha => rw [List.mem_singleton.mp hb]
  | two ha hb' =>
    rw [isTail_iff] at hb'
    simp only [List.mem_cons, List.not_mem_nil, or_false] at hb
    rcases hb with rfl | rfl <;> omega
  | three ha hb' hc =>
    rw [isTail_iff] at hb' hc
    simp only [List.mem_cons, List.not_mem_nil, or_false] at hb
    rcases hb with rfl | rfl | rfl <;> omega
  | four ha hb' hc hd =>
    rw [isTail_iff] at hb' hc hd
    simp only [List.mem_cons, List.not_mem_nil, or_false] at hb
    rcases hb with rfl | rfl | rfl | rfl <;> omega

theorem splitOn_ofChars {sep : UInt8} (hsep : sep.toNat < 128) (chars : List Char) :
    ∃ pieces : List (List Char),
      Text.splitOn sep (Text.ofChars chars) = pieces.map Text.ofChars := by
  induction chars with
  | nil => exact ⟨[[]], rfl⟩
  | cons c chars ih =>
    obtain ⟨pieces, hpieces⟩ := ih
    have hcons : Text.ofChars (c :: chars) = String.utf8EncodeChar c ++ Text.ofChars chars :=
      List.flatMap_cons
    by_cases hc : sep ∈ String.utf8EncodeChar c
    · rw [hcons, (spells_utf8EncodeChar c).eq_singleton hc hsep, List.singleton_append,
        Text.splitOn, if_pos rfl, hpieces]
      exact ⟨[] :: pieces, rfl⟩
    · rw [hcons, Text.splitOn_append_of_notMem hc, hpieces]
      cases pieces with
      | nil => exact ⟨[], rfl⟩
      | cons piece pieces => exact ⟨(c :: piece) :: pieces, by simp [Text.ofChars]⟩

-- ---------------------------------------------------------------------------
-- Text with stray bytes
-- ---------------------------------------------------------------------------

theorem lossyChars_append (c : Char) (s : Bytes) :
    lossyChars (String.utf8EncodeChar c ++ s) = c :: lossyChars s := by
  rw [lossyChars, runes_of_first? (first?_eq_some_iff.mpr rfl)]
  rfl

theorem lossyChars_stray {b : UInt8} {s : Bytes} (h : first? (b :: s) = none) :
    lossyChars (b :: s) = '\uFFFD' :: lossyChars s := by
  rw [lossyChars, runes.eq_def]
  split
  · simp_all
  · rfl

theorem first?_eq_none_of_append {s t : Bytes} (h : first? (s ++ t) = none) :
    first? s = none := by
  cases hs : first? s with
  | none => rfl
  | some found =>
    obtain ⟨c, rest⟩ := found
    rw [first?_eq_some_iff.mp hs, List.append_assoc, first?_eq_some_iff.mpr rfl] at h
    cases h

theorem lossyChars_nil : lossyChars [] = [] := by
  rw [lossyChars, runes.eq_def]
  rfl

/-- Text is the written form of its characters, or begins with stray byte. -/
theorem ofChars_lossyChars {s : Bytes} (h : '\uFFFD' ∉ lossyChars s) :
    Text.ofChars (lossyChars s) = s := by
  fun_induction runes s with
  | case1 s c rest hfirst ih =>
    rw [first?_eq_some_iff.mp hfirst, lossyChars_append] at h ⊢
    rw [List.mem_cons, not_or] at h
    rw [Text.ofChars, List.flatMap_cons]
    exact congrArg _ (ih h.2)
  | case2 => rw [lossyChars_nil]; rfl
  | case3 b rest hfirst ih =>
    rw [lossyChars_stray hfirst] at h
    exact absurd List.mem_cons_self h

/-- One character that is no separator goes to the first piece, before the reading and after. -/
theorem map_lossyChars_splitOn_append {sep : UInt8} (front : Bytes) {s : Bytes} (c : Char)
    (hfront : sep ∉ front) (hc : c ≠ Char.ofNat sep.toNat)
    (hread : ∀ piece, piece <+: s → lossyChars (front ++ piece) = c :: lossyChars piece)
    (hs : (Text.splitOn sep s).map lossyChars = (lossyChars s).splitOn (Char.ofNat sep.toNat)) :
    (Text.splitOn sep (front ++ s)).map lossyChars =
      (lossyChars (front ++ s)).splitOn (Char.ofNat sep.toNat) := by
  rw [hread s List.prefix_rfl, List.splitOn_cons_eq_if_modifyHead, if_neg (by simpa using hc), ← hs,
    Text.splitOn_append_of_notMem hfront]
  cases hpieces : Text.splitOn sep s with
  | nil => exact absurd hpieces (Text.splitOn_ne_nil sep s)
  | cons piece pieces =>
    simp only [List.modifyHead_cons, List.map_cons, hread piece (Text.prefix_of_splitOn hpieces)]

theorem utf8EncodeChar_ofNat {b : UInt8} (h : b.toNat < 128) :
    String.utf8EncodeChar (Char.ofNat b.toNat) = [b] :=
  (Spells.one h).utf8EncodeChar_eq

/-- A byte below 128 is never a part of a longer sequence and never stray, so it makes no
difference whether text is split at it before or after it is read. -/
theorem map_lossyChars_splitOn {sep : UInt8} (hsep : sep.toNat < 128) (s : Bytes) :
    (Text.splitOn sep s).map lossyChars = (lossyChars s).splitOn (Char.ofNat sep.toNat) := by
  fun_induction runes s with
  | case1 s c rest hfirst ih =>
    rw [first?_eq_some_iff.mp hfirst]
    by_cases hc : c = Char.ofNat sep.toNat
    · rw [lossyChars_append, hc, utf8EncodeChar_ofNat hsep, List.singleton_append, Text.splitOn,
        if_pos rfl, List.splitOn_cons_eq_if_modifyHead, if_pos BEq.rfl, List.map_cons, ih,
        lossyChars_nil]
    · refine map_lossyChars_splitOn_append _ c (fun hmem => hc ?_) hc
        (fun piece _ => lossyChars_append c piece) ih
      have hread := lossyChars_append c []
      rw [(spells_utf8EncodeChar c).eq_singleton hmem hsep, ← utf8EncodeChar_ofNat hsep,
        lossyChars_append] at hread
      exact (List.cons.inj hread).1.symm
  | case2 =>
    rw [lossyChars_nil, List.splitOn_nil, Text.splitOn, List.map_singleton, lossyChars_nil]
  | case3 b rest hfirst ih =>
    refine map_lossyChars_splitOn_append [b] '\uFFFD' (fun hmem => ?_) (fun heq => ?_) ?_ ih
    · rw [← List.mem_singleton.mp hmem] at hfirst
      cases ((Spells.one hsep).first? rest).symm.trans hfirst
    · have hcode := congrArg (·.val.toNat) heq
      simp only [toNat_ofNat (Spells.one hsep).isValidChar] at hcode
      rw [← hcode] at hsep
      exact absurd hsep (by decide)
    · rintro piece ⟨others, rfl⟩
      exact lossyChars_stray (first?_eq_none_of_append hfirst)

end ClassHeader.Utf8
