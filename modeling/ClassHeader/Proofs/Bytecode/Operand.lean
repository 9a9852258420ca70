import ClassHeader.Bytecode.Decode
import ClassHeader.Proofs.Binary.Format

/-!
# Operands and their bytes

`Operand.Fits` says which operands an opcode takes. The operands of fixed size
that fit are exactly those that can be read, and reading undoes writing them.
-/

namespace ClassHeader.Bytecode

open Binary Binary.Reader

-- ---------------------------------------------------------------------------
-- Narrow words
-- ---------------------------------------------------------------------------

theorem mod_of_le {v : UInt16} (h : v ≤ 255) : v % 256 = v := by
  have hv : v.toNat ≤ 255 := UInt16.le_iff_toNat_le.mp h
  apply UInt16.toNat_inj.mp
  rw [UInt16.toNat_mod]
  exact Nat.mod_eq_of_lt (by simpa using Nat.lt_succ_of_le hv)

theorem one_le_iff {v : UInt8} : 1 ≤ v ↔ v ≠ 0 := by
  rw [UInt8.le_iff_toNat_le, ne_eq, ← UInt8.toNat_inj]
  exact Nat.one_le_iff_ne_zero

theorem toUInt16_le (b : UInt8) : b.toUInt16 ≤ 255 := by
  have hb : b.toNat < 256 := b.toNat_lt
  apply UInt16.le_iff_toNat_le.mpr
  rw [UInt8.toNat_toUInt16]
  exact Nat.le_of_lt_succ hb

theorem toInt16_toInt8 {v : Int16} (h : -128 ≤ v ∧ v ≤ 127) : v.toInt8.toInt16 = v := by
  have hlow : -128 ≤ v.toInt := Int16.le_iff_toInt_le.mp h.1
  have hhigh : v.toInt ≤ 127 := Int16.le_iff_toInt_le.mp h.2
  apply Int16.toInt_inj.mp
  rw [Int8.toInt_toInt16, Int16.toInt_toInt8]
  exact Int.bmod_eq_of_le (by omega) (by omega)

theorem toInt16_range (v : Int8) : -128 ≤ v.toInt16 ∧ v.toInt16 ≤ 127 := by
  have hlow : -128 ≤ v.toInt := v.le_toInt
  have hhigh : v.toInt ≤ 127 := Int.le_of_lt_add_one v.toInt_lt
  constructor
  · apply Int16.le_iff_toInt_le.mpr
    simpa using hlow
  · apply Int16.le_iff_toInt_le.mpr
    simpa using hhigh

theorem toInt32_toInt16 {v : Int32} (h : -32768 ≤ v ∧ v ≤ 32767) : v.toInt16.toInt32 = v := by
  have hlow : -32768 ≤ v.toInt := Int32.le_iff_toInt_le.mp h.1
  have hhigh : v.toInt ≤ 32767 := Int32.le_iff_toInt_le.mp h.2
  apply Int32.toInt_inj.mp
  rw [Int16.toInt_toInt32, Int32.toInt_toInt16]
  exact Int.bmod_eq_of_le (by omega) (by omega)

theorem toInt32_range (v : Int16) : -32768 ≤ v.toInt32 ∧ v.toInt32 ≤ 32767 := by
  have hlow : -32768 ≤ v.toInt := v.le_toInt
  have hhigh : v.toInt ≤ 32767 := Int.le_of_lt_add_one v.toInt_lt
  constructor
  · apply Int32.le_iff_toInt_le.mpr
    simpa using hlow
  · apply Int32.le_iff_toInt_le.mpr
    simpa using hhigh

-- ---------------------------------------------------------------------------
-- Operands that fit
-- ---------------------------------------------------------------------------

/-- The operands that an opcode takes, each with values that its bytes can hold. -/
def Operand.Fits (op : Opcode) : Operand → Prop
  | .empty => op.form = .plain
  | .slot index => op.form = .slot ∧ index ≤ 255
  | .byte _ => op.form = .byte
  | .short _ => op.form = .short
  | .pool index => op.form = .pool ∨ op.form = .shortPool ∧ index ≤ 255
  | .branch distance =>
    op.form = .farBranch ∨ op.form = .branch ∧ -32768 ≤ distance ∧ distance ≤ 32767
  | .increment index amount =>
    op.form = .increment ∧ index ≤ 255 ∧ -128 ≤ amount ∧ amount ≤ 127
  | .invokeInterface _ count => op.form = .invokeInterface ∧ 1 ≤ count
  | .invokeDynamic _ => op.form = .invokeDynamic
  | .newArray element => op.form = .elementType ∧ 4 ≤ element ∧ element ≤ 11
  | .multiArray _ dimensions => op.form = .multiArray ∧ 1 ≤ dimensions
  | .tableSwitch _ low high distances =>
    op.form = .tableSwitch ∧ low ≤ high ∧ distances.length = high.toInt - low.toInt + 1
  | .lookupSwitch _ pairs =>
    op.form = .lookupSwitch ∧ (pairs.map (·.1)).Pairwise (· < ·)
  | .wide inner _ amount =>
    op.form = .wide ∧ (inner.form = .slot ∨ inner = Opcode.iinc) ∧
      (inner ≠ Opcode.iinc → amount = 0)
  | .number _ => False

instance (op : Opcode) : DecidablePred (Operand.Fits op) := fun operand => by
  unfold Operand.Fits
  split <;> infer_instance

theorem fixedOperand_ok {op : Opcode} {data : Bytes} {operand : Operand} (pc : Nat)
    (h : fixedOperand op data = .ok operand) :
    operand.Fits op ∧ operand.encode? op pc = some data := by
  have hword (a b : UInt8) : u2 (UInt16.ofNat (toNat [a, b])) = [a, b] := u2_ofNat_toNat rfl
  unfold fixedOperand at h
  -- One case for each form, in the order of the definition; the last is data of a wrong length.
  split at h
  · rename_i hform
    cases h
    exact ⟨hform, by simp [Operand.encode?, Opcode.width?, hform, Form.width?]⟩
  · rename_i a hform
    cases h
    exact ⟨hform, by simp [Operand.encode?, u1]⟩
  · rename_i a b hform
    cases h
    exact ⟨hform, by simp [Operand.encode?, hword]⟩
  · rename_i a hform
    cases h
    exact ⟨.inr ⟨hform, toUInt16_le a⟩, by simp [Operand.encode?, hform, u1]⟩
  · rename_i a hform
    split at h
    · rename_i helement
      cases h
      exact ⟨⟨hform, by simpa [isElementType] using helement⟩, by simp [Operand.encode?, u1]⟩
    · cases h
  · rename_i a hform
    cases h
    exact ⟨⟨hform, toUInt16_le a⟩, by simp [Operand.encode?, u1]⟩
  · rename_i a b hform
    cases h
    exact ⟨⟨hform, toUInt16_le a, toInt16_range _⟩, by simp [Operand.encode?, u1]⟩
  · rename_i a b hform
    cases h
    exact ⟨.inr ⟨hform, toInt32_range _⟩, by simp [Operand.encode?, hform, hword]⟩
  · rename_i a b c d hform
    cases h
    exact ⟨.inl hform, by simp [Operand.encode?, hform, s4, u4_ofNat_toNat]⟩
  · rename_i a b count zero hform
    split at h
    · cases h
    · rename_i hchecked
      cases h
      obtain ⟨hcount, rfl⟩ : count ≠ 0 ∧ zero = 0 := by simpa using hchecked
      exact ⟨⟨hform, one_le_iff.mpr hcount⟩, by simp [Operand.encode?, hword, u1]⟩
  · rename_i a b zero zero' hform
    split at h
    · cases h
    · rename_i hzero
      cases h
      obtain ⟨rfl, rfl⟩ : zero = 0 ∧ zero' = 0 := by simpa using hzero
      have hreserved : u2 0 = [0, 0] := rfl
      exact ⟨hform, by simp [Operand.encode?, hword, hreserved]⟩
  · rename_i a b dimensions hform
    split at h
    · cases h
    · rename_i hdimensions
      cases h
      exact ⟨⟨hform, one_le_iff.mpr hdimensions⟩, by simp [Operand.encode?, hword, u1]⟩
  · rename_i a b hform
    cases h
    exact ⟨.inl hform, by simp [Operand.encode?, hform, hword]⟩
  · split at h <;> cases h

theorem fixedOperand_of_fits {op : Opcode} {data : Bytes} {operand : Operand} {pc width : Nat}
    (hwidth : op.width? = some width) (hfits : operand.Fits op)
    (hdata : operand.encode? op pc = some data) : fixedOperand op data = .ok operand := by
  have hword (v : UInt16) : ∃ a b, u2 v = [a, b] ∧ UInt16.ofNat (toNat [a, b]) = v := by
    obtain ⟨a, b, hab⟩ := List.length_eq_two.mp (length_u2 v)
    exact ⟨a, b, hab, hab ▸ ofNat_toNat_u2 v⟩
  cases operand with
  | empty =>
    have hform : op.form = .plain := hfits
    obtain rfl : [] = data := by
      simpa [Operand.encode?, Opcode.width?, hform, Form.width?] using hdata
    simp [fixedOperand, hform, pure, Except.pure]
  | slot index =>
    obtain ⟨hform, hindex⟩ := hfits
    cases hdata
    simp [fixedOperand, u1, hform, mod_of_le hindex, pure, Except.pure]
  | byte value =>
    have hform : op.form = .byte := hfits
    cases hdata
    simp [fixedOperand, u1, hform, pure, Except.pure]
  | short value =>
    have hform : op.form = .short := hfits
    obtain ⟨a, b, hab, hvalue⟩ := hword value.toUInt16
    cases hdata
    simp [fixedOperand, hab, hform, hvalue, pure, Except.pure]
  | pool index =>
    rcases hfits with hform | ⟨hform, hindex⟩
    · obtain ⟨a, b, hab, hvalue⟩ := hword index
      obtain rfl : [a, b] = data := by simpa [Operand.encode?, hform, hab] using hdata
      simp [fixedOperand, hform, hvalue, pure, Except.pure]
    · obtain rfl : [index.toUInt8] = data := by simpa [Operand.encode?, hform, u1] using hdata
      simp [fixedOperand, hform, mod_of_le hindex, pure, Except.pure]
  | branch distance =>
    rcases hfits with hform | ⟨hform, hdistance⟩
    · obtain ⟨a, b, c, d, habcd⟩ := List.length_eq_four.mp (length_u4 distance.toUInt32)
      have hvalue := ofNat_toNat_u4 distance.toUInt32
      rw [habcd] at hvalue
      obtain rfl : [a, b, c, d] = data := by
        simpa [Operand.encode?, hform, s4, habcd] using hdata
      simp [fixedOperand, hform, hvalue, pure, Except.pure]
    · obtain ⟨a, b, hab, hvalue⟩ := hword distance.toInt16.toUInt16
      obtain rfl : [a, b] = data := by simpa [Operand.encode?, hform, hab] using hdata
      simp [fixedOperand, hform, hvalue, toInt32_toInt16 hdistance, pure, Except.pure]
  | increment index amount =>
    obtain ⟨hform, hindex, hamount⟩ := hfits
    cases hdata
    simp [fixedOperand, u1, hform, mod_of_le hindex, toInt16_toInt8 hamount, pure, Except.pure]
  | invokeInterface index count =>
    obtain ⟨hform, hcount⟩ := hfits
    obtain ⟨a, b, hab, hvalue⟩ := hword index
    cases hdata
    simp [fixedOperand, u1, hform, hab, hvalue, one_le_iff.mp hcount, pure, Except.pure]
  | invokeDynamic index =>
    have hform : op.form = .invokeDynamic := hfits
    have hzero : u2 0 = [0, 0] := rfl
    obtain ⟨a, b, hab, hvalue⟩ := hword index
    cases hdata
    simp [fixedOperand, hform, hab, hzero, hvalue, pure, Except.pure]
  | newArray element =>
    obtain ⟨hform, helement⟩ := hfits
    cases hdata
    simp [fixedOperand, u1, hform, isElementType, helement, pure, Except.pure]
  | multiArray index dimensions =>
    obtain ⟨hform, hdimensions⟩ := hfits
    obtain ⟨a, b, hab, hvalue⟩ := hword index
    cases hdata
    simp [fixedOperand, u1, hform, hab, hvalue, one_le_iff.mp hdimensions, pure, Except.pure]
  | tableSwitch | lookupSwitch | wide => simp [Opcode.width?, hfits.1, Form.width?] at hwidth
  | number => exact hfits.elim

theorem isSupported_of_fits {op : Opcode} {operand : Operand} (h : operand.Fits op) :
    op.isSupported = true := by
  have hform : op.form ≠ .unsupported := by
    intro hform
    cases operand <;> simp [Operand.Fits, hform] at h
  simpa [Opcode.isSupported] using hform

theorem encode?_of_fits {op : Opcode} {operand : Operand} (h : operand.Fits op) (pc : Nat) :
    ∃ data, operand.encode? op pc = some data ∧
      ∀ width, op.width? = some width → data.length = width := by
  cases operand with
  | empty =>
    have hform : op.form = .plain := h
    exact ⟨[], by simp [Operand.encode?, Opcode.width?, hform, Form.width?],
      by simp [Opcode.width?, hform, Form.width?]⟩
  | pool | branch =>
    rcases h with hform | ⟨hform, _⟩ <;>
      exact ⟨_, rfl, by simp [Opcode.width?, hform, Form.width?, s4]⟩
  | byte | short | invokeDynamic =>
    have hform := h
    simp only [Operand.Fits] at hform
    exact ⟨_, rfl, by simp [Opcode.width?, hform, Form.width?]⟩
  | slot | increment | invokeInterface | newArray | multiArray =>
    exact ⟨_, rfl, by simp [Opcode.width?, h.1, Form.width?]⟩
  | tableSwitch | lookupSwitch | wide =>
    exact ⟨_, rfl, by simp [Opcode.width?, h.1, Form.width?]⟩
  | number => exact h.elim

end ClassHeader.Bytecode
