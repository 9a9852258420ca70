import ClassHeader.Text.Basic
import Mathlib

/-!
# Pieces and digits

Splitting text at a separator loses nothing, a text is found in another one exactly
where it stands in it, and hexadecimal digits show the number they were written from.
-/

namespace ClassHeader.Text

theorem contains_iff {part whole : Bytes} : contains part whole = true ↔ part <:+: whole := by
  induction whole with
  | nil => simp [contains]
  | cons b rest ih =>
    rw [contains, Bool.or_eq_true, List.isPrefixOf_iff_prefix, ih, List.infix_cons_iff]

-- ---------------------------------------------------------------------------
-- Pieces between separators
-- ---------------------------------------------------------------------------

theorem splitOn_eq (sep : UInt8) (s : Bytes) : splitOn sep s = s.splitOn sep := by
  induction s with
  | nil => rfl
  | cons b rest ih =>
    rw [splitOn, ih, List.splitOn, List.splitOn, List.splitOnP_cons_eq_if_modifyHead]
    by_cases hb : b = sep
    · simp [hb]
    · rw [if_neg hb, if_neg (by simpa using hb)]
      cases h : rest.splitOnP (· == sep) with
      | nil => exact absurd h (List.splitOnP_ne_nil _ _)
      | cons piece pieces => rfl

theorem splitOn_injective (sep : UInt8) : Function.Injective (splitOn sep) := by
  intro s t h
  have hjoined := congrArg [sep].intercalate h
  rwa [splitOn_eq, splitOn_eq, List.intercalate_splitOn, List.intercalate_splitOn] at hjoined

theorem splitOn_ne_nil (sep : UInt8) (s : Bytes) : splitOn sep s ≠ [] := by
  rw [splitOn_eq]
  exact List.splitOnP_ne_nil _ _

theorem splitOn_cons_of_ne {sep b : UInt8} (h : b ≠ sep) (s : Bytes) :
    splitOn sep (b :: s) = (splitOn sep s).modifyHead (b :: ·) := by
  rw [splitOn, if_neg h]
  cases hs : splitOn sep s with
  | nil => exact absurd hs (splitOn_ne_nil sep s)
  | cons piece pieces => rfl

theorem splitOn_append_of_notMem {sep : UInt8} {front : Bytes} (h : sep ∉ front) (s : Bytes) :
    splitOn sep (front ++ s) = (splitOn sep s).modifyHead (front ++ ·) := by
  induction front with
  | nil => exact (congrFun List.modifyHead_id _).symm
  | cons b front ih =>
    rw [List.mem_cons, not_or] at h
    rw [List.cons_append, splitOn_cons_of_ne (Ne.symm h.1), ih h.2, List.modifyHead_modifyHead]
    rfl

theorem splitOn_append_cons (sep : UInt8) (front s : Bytes) :
    splitOn sep (front ++ sep :: s) = splitOn sep front ++ splitOn sep s := by
  induction front with
  | nil => simp [splitOn]
  | cons b front ih =>
    by_cases hb : b = sep
    · rw [List.cons_append, splitOn, if_pos hb, ih, splitOn, if_pos hb, List.cons_append]
    · rw [List.cons_append, splitOn_cons_of_ne hb, ih, splitOn_cons_of_ne hb]
      cases hfront : splitOn sep front with
      | nil => exact absurd hfront (splitOn_ne_nil sep front)
      | cons piece pieces => rfl

theorem splitOn_of_notMem {sep : UInt8} {s : Bytes} (h : sep ∉ s) : splitOn sep s = [s] := by
  have hsplit := splitOn_append_of_notMem h []
  rwa [List.append_nil, splitOn, List.modifyHead_cons, List.append_nil] at hsplit

theorem notMem_of_mem_splitOn {sep : UInt8} {s piece : Bytes} (h : piece ∈ splitOn sep s) :
    sep ∉ piece := by
  induction s generalizing piece with
  | nil =>
    rw [splitOn, List.mem_singleton] at h
    rw [h]
    exact List.not_mem_nil
  | cons b s ih =>
    by_cases hb : b = sep
    · rw [splitOn, if_pos hb, List.mem_cons] at h
      rcases h with rfl | h
      · exact List.not_mem_nil
      · exact ih h
    · rw [splitOn_cons_of_ne hb] at h
      cases hs : splitOn sep s with
      | nil => exact absurd hs (splitOn_ne_nil sep s)
      | cons first rest =>
        rw [hs] at h ih
        rcases List.mem_cons.mp h with rfl | h
        · exact List.not_mem_cons_of_ne_of_not_mem (Ne.symm hb) (ih List.mem_cons_self)
        · exact ih (List.mem_cons_of_mem _ h)

theorem prefix_of_splitOn {sep : UInt8} {s piece : Bytes} {pieces : List Bytes}
    (h : splitOn sep s = piece :: pieces) : piece <+: s := by
  induction s generalizing piece pieces with
  | nil =>
    cases h
    exact List.prefix_rfl
  | cons b s ih =>
    by_cases hb : b = sep
    · rw [splitOn, if_pos hb] at h
      cases h
      exact List.nil_prefix
    · rw [splitOn_cons_of_ne hb] at h
      cases hs : splitOn sep s with
      | nil => exact absurd hs (splitOn_ne_nil sep s)
      | cons first others =>
        rw [hs] at h
        cases h
        exact List.cons_prefix_cons.mpr ⟨rfl, ih hs⟩

theorem splitOn_eq_splitLast? (sep : UInt8) (s : Bytes) :
    splitOn sep s =
      (splitLast? sep s).elim [s] fun (before, after) => splitOn sep before ++ [after] := by
  induction s with
  | nil => rfl
  | cons b rest ih =>
    rw [splitLast?]
    cases hrest : splitLast? sep rest with
    | none =>
      rw [hrest, Option.elim_none] at ih
      by_cases hb : b = sep
      · simp [splitOn, hb, ih]
      · simp [splitOn_cons_of_ne hb, hb, ih]
    | some parts =>
      obtain ⟨before, after⟩ := parts
      rw [hrest, Option.elim_some] at ih
      by_cases hb : b = sep
      · simp [splitOn, hb, ih]
      · cases hbefore : splitOn sep before with
        | nil => exact absurd hbefore (splitOn_ne_nil sep before)
        | cons piece pieces => simp [splitOn_cons_of_ne hb, ih, hbefore]

theorem head?_of_splitLast? {sep : UInt8} {s after : Bytes}
    (h : splitLast? sep s = some ([], after)) : s.head? = some sep := by
  cases s with
  | nil => simp [splitLast?] at h
  | cons b rest =>
    rw [splitLast?] at h
    cases hrest : splitLast? sep rest with
    | none =>
      by_cases hb : b = sep
      · rw [hb, List.head?_cons]
      · simp [hrest, hb] at h
    | some parts => simp [hrest] at h

-- ---------------------------------------------------------------------------
-- Hexadecimal digits
-- ---------------------------------------------------------------------------

def isHexDigit (b : UInt8) : Bool := (48 ≤ b && b ≤ 57) || (97 ≤ b && b ≤ 102)

def digitValue (b : UInt8) : Nat := if b < 97 then b.toNat - 48 else b.toNat - 87

def hexValue (s : Bytes) : Nat := s.foldl (fun n b => 16 * n + digitValue b) 0

theorem hexValue_append_singleton (s : Bytes) (b : UInt8) :
    hexValue (s ++ [b]) = 16 * hexValue s + digitValue b := by
  simp [hexValue]

theorem hexValue_replicate_append (k : Nat) (s : Bytes) :
    hexValue (List.replicate k Ascii.zero ++ s) = hexValue s := by
  induction k with
  | zero => rfl
  | succ k ih => exact ih

theorem ofChars_append (s t : List Char) : ofChars (s ++ t) = ofChars s ++ ofChars t :=
  List.flatMap_append

def hexDigit (d : Nat) : UInt8 := .ofNat d.digitChar.toNat

theorem ofChars_digitChar : ∀ d < 16, ofChars [d.digitChar] = [hexDigit d] ∧
    digitValue (hexDigit d) = d ∧ isHexDigit (hexDigit d) = true := by
  decide

theorem ofChars_toDigits (n : Nat) :
    hexValue (ofChars (Nat.toDigits 16 n)) = n ∧
      (ofChars (Nat.toDigits 16 n)).length = (Nat.toDigits 16 n).length ∧
      (ofChars (Nat.toDigits 16 n)).all isHexDigit := by
  induction n using Nat.strong_induction_on with
  | _ n ih =>
    obtain ⟨hb, hvalue, hdigit⟩ := ofChars_digitChar (n % 16) (Nat.mod_lt n (by decide))
    by_cases hn : n < 16
    · rw [Nat.mod_eq_of_lt hn] at hb hvalue hdigit
      simp [Nat.toDigits_of_lt_base hn, hb, hexValue, hvalue, hdigit]
    · obtain ⟨ihvalue, ihlength, ihdigits⟩ := ih (n / 16) (by omega)
      rw [Nat.toDigits_of_base_le (by decide) (by omega), ofChars_append, hb]
      refine ⟨?_, ?_, ?_⟩
      · rw [hexValue_append_singleton, ihvalue, hvalue, Nat.div_add_mod]
      · simp [ihlength]
      · simp [ihdigits, hdigit]

theorem hexValue_hex (width n : Nat) : hexValue (hex width n) = n := by
  rw [hex, digits, hexValue_replicate_append]
  exact (ofChars_toDigits n).1

theorem length_hex {width n : Nat} (hwidth : 0 < width) (h : n < 16 ^ width) :
    (hex width n).length = width := by
  have hshown : (ofChars (Nat.toDigits 16 n)).length ≤ width := by
    rw [(ofChars_toDigits n).2.1]
    exact (Nat.length_toDigits_le_iff (by decide) hwidth).mpr h
  simp only [hex, digits, List.length_append, List.length_replicate]
  omega

theorem isHexDigit_of_mem_hex {width n : Nat} {b : UInt8} (h : b ∈ hex width n) :
    isHexDigit b = true := by
  rw [hex, digits, List.mem_append] at h
  rcases h with hpad | hshown
  · rw [List.eq_of_mem_replicate hpad]
    rfl
  · exact List.all_eq_true.mp (ofChars_toDigits n).2.2 b hshown

end ClassHeader.Text
