import ClassHeader.Proofs.Text.Utf8

/-!
# Netstrings read back

A list of texts is read back from its netstrings, so different lists never have
the same bytes.
-/

namespace ClassHeader.Netstring

-- ---------------------------------------------------------------------------
-- Lengths
-- ---------------------------------------------------------------------------

theorem toNat_of_mem_toDigits {c : Char} {n : Nat} (h : c ∈ Nat.toDigits 10 n) :
    48 ≤ c.toNat ∧ c.toNat ≤ 57 :=
  Char.isDigit_iff_toNat.mp (Nat.isDigit_of_mem_toDigits (by decide) (by decide) h)

theorem toNat_ofNat_of_mem_toDigits {c : Char} {n : Nat} (h : c ∈ Nat.toDigits 10 n) :
    (UInt8.ofNat c.toNat).toNat = c.toNat := by
  obtain ⟨-, hle⟩ := toNat_of_mem_toDigits h
  rw [UInt8.toNat_ofNat']
  omega

theorem ofNat_eq_map (n : Nat) :
    Text.ofNat n = (Nat.toDigits 10 n).map fun c => UInt8.ofNat c.toNat := by
  have hpos : 0 < (Nat.toDigits 10 n).length := Nat.length_toDigits_pos
  have hshown : Text.ofChars (Nat.toDigits 10 n) =
      (Nat.toDigits 10 n).map fun c => UInt8.ofNat c.toNat := by
    rw [Text.ofChars, ← List.flatMap_pure_eq_map]
    refine List.flatMap_congr fun c hc => ?_
    obtain ⟨-, hle⟩ := toNat_of_mem_toDigits hc
    rw [← List.flatMap_singleton String.utf8EncodeChar c]
    exact Utf8.ofChars_singleton (by omega)
  rw [Text.ofNat, Text.digits, hshown, List.length_map, Nat.sub_eq_zero_of_le hpos]
  rfl

theorem isDigit_of_mem_ofNat {n : Nat} {b : UInt8} (h : b ∈ Text.ofNat n) : isDigit b = true := by
  rw [ofNat_eq_map, List.mem_map] at h
  obtain ⟨c, hc, rfl⟩ := h
  have hrange := toNat_of_mem_toDigits hc
  simpa [isDigit, UInt8.le_iff_toNat_le, toNat_ofNat_of_mem_toDigits hc] using hrange

theorem numberOf_ofNat (n : Nat) : numberOf (Text.ofNat n) = n := by
  calc numberOf (Text.ofNat n)
      = (Nat.toDigits 10 n).foldl (fun k c => k * 10 + ((UInt8.ofNat c.toNat).toNat - 48)) 0 := by
        rw [ofNat_eq_map, numberOf, List.foldl_map]
    _ = (Nat.toDigits 10 n).foldl (fun k c => 10 * k + (c.toNat - 48)) 0 := by
        refine List.foldl_ext _ _ _ fun k c hc => ?_
        rw [toNat_ofNat_of_mem_toDigits hc, Nat.mul_comm]
    _ = n := Nat.ofDigitChars_ten_toDigits

theorem ofNat_ne_nil (n : Nat) : Text.ofNat n ≠ [] := by
  simp [ofNat_eq_map]

-- ---------------------------------------------------------------------------
-- Texts
-- ---------------------------------------------------------------------------

/-- The digits of a length end at its colon, whatever is behind it. -/
theorem next?_append (part rest : Bytes) :
    next? (Text.ofNat part.length ++ Ascii.colon :: (part ++ rest)) = some (part, rest) := by
  have hdigits : ∀ b ∈ Text.ofNat part.length, isDigit b = true := fun b hb =>
    isDigit_of_mem_ofNat hb
  have hcolon : isDigit Ascii.colon = false := rfl
  have hhead : (Text.ofNat part.length ++ Ascii.colon :: (part ++ rest)).head?.any isDigit := by
    cases hshown : Text.ofNat part.length with
    | nil => exact absurd hshown (ofNat_ne_nil _)
    | cons b digits => exact hdigits b (by rw [hshown]; exact List.mem_cons_self)
  rw [next?, List.dropWhile_append_of_pos hdigits, List.takeWhile_append_of_pos hdigits,
    List.dropWhile_cons_of_neg (by simp [hcolon]), List.takeWhile_cons_of_neg (by simp [hcolon]),
    List.append_nil, numberOf_ofNat]
  simp only [Ascii.colon]
  rw [if_pos ⟨by simp, hhead⟩, List.take_left, List.drop_left]

theorem encode_cons (part : Bytes) (parts : List Bytes) :
    encode (part :: parts) = Text.ofNat part.length ++ Ascii.colon :: (part ++ encode parts) := by
  simp [encode]

theorem decodeFrom?_encode (parts : List Bytes) {fuel : Nat}
    (h : (encode parts).length ≤ fuel) : decodeFrom? fuel (encode parts) = some parts := by
  induction parts generalizing fuel with
  | nil => cases fuel <;> rfl
  | cons part parts ih =>
    rw [encode_cons] at h ⊢
    cases fuel with
    | zero => simp at h
    | succ fuel =>
      have hrest : (encode parts).length ≤ fuel := by
        simp only [List.length_append, List.length_cons] at h
        omega
      cases hshown : Text.ofNat part.length ++ Ascii.colon :: (part ++ encode parts) with
      | nil => simp at hshown
      | cons b others =>
        simp only [decodeFrom?]
        rw [← hshown, next?_append]
        simp [ih hrest]

theorem decode?_encode (parts : List Bytes) : decode? (encode parts) = some parts :=
  decodeFrom?_encode parts le_rfl

theorem encode_injective : Function.Injective encode := by
  intro parts others h
  have hdecoded := congrArg decode? h
  simpa [decode?_encode] using hdecoded

end ClassHeader.Netstring
