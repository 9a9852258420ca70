import ClassHeader.Graph.Order
import Mathlib

/-!
# Members of bit sets

Adding and removing a number changes the membership of that number and of no
other, whatever words the set has. So a bit set holds what the finite set holds
that is changed in the same way, and its size is the number of members.
-/

namespace ClassHeader.BitSet

theorem toBitVec_mask (v : Nat) : (mask v).toBitVec = BitVec.twoPow 64 (v % 64) := by
  have hamount : v % 64 % 18446744073709551616 % 64 = v % 64 := by omega
  apply BitVec.eq_of_toNat_eq
  simp [mask, Nat.one_shiftLeft, BitVec.toNat_twoPow, hamount]

theorem and_mask_ne_zero_iff (word : UInt64) (v : Nat) :
    word &&& mask v ≠ 0 ↔ word.toBitVec.getLsbD (v % 64) = true := by
  have hlt : v % 64 < 64 := Nat.mod_lt v (by omega)
  have hpow : BitVec.twoPow 64 (v % 64) ≠ 0#64 := by
    intro h
    have hbit := congrArg (BitVec.getLsbD · (v % 64)) h
    simp [hlt] at hbit
  rw [Ne, ← UInt64.toBitVec_inj, UInt64.toBitVec_and, toBitVec_mask, BitVec.and_twoPow]
  cases word.toBitVec.getLsbD (v % 64) <;> simp [hpow]

/-- The bit that stands for a number; all bits behind the last word are clear. -/
def bitAt (words : List UInt64) (v : Nat) : Bool :=
  (words[v / 64]?.getD 0).toBitVec.getLsbD (v % 64)

theorem contains_eq_bitAt (s : BitSet) (v : Nat) : s.contains v = bitAt s.words v := by
  unfold contains bitAt
  cases s.words[v / 64]? with
  | none => simp
  | some word =>
    rw [Bool.eq_iff_iff]
    simpa using and_mask_ne_zero_iff word v

@[simp] theorem contains_empty (bound v : Nat) : (empty bound).contains v = false := by
  rw [contains_eq_bitAt, bitAt, empty, List.getElem?_replicate]
  split <;> simp

theorem lt_length_grown (words : List UInt64) (index : Nat) :
    index < (grown words index).length := by
  simp only [grown, List.length_append, List.length_replicate]
  omega

/-- Words that were added are clear, so no bit changes. -/
theorem getD_grown (words : List UInt64) (index i : Nat) :
    (grown words index)[i]?.getD 0 = words[i]?.getD 0 := by
  rw [grown, List.getElem?_append, List.getElem?_replicate]
  split
  · rfl
  · rename_i hout
    rw [List.getElem?_eq_none (Nat.not_lt.mp hout)]
    split <;> rfl

@[simp] theorem contains_insert {s : BitSet} {v u : Nat} :
    (s.insert v).contains u = true ↔ u = v ∨ s.contains u = true := by
  simp only [contains_eq_bitAt, bitAt, insert, List.getElem?_modify]
  by_cases hword : v / 64 = u / 64
  · obtain ⟨word, hfound⟩ : ∃ word, (grown s.words (v / 64))[u / 64]? = some word :=
      ⟨_, List.getElem?_eq_getElem (hword ▸ lt_length_grown s.words (v / 64))⟩
    have hold : word = s.words[u / 64]?.getD 0 := by
      rw [← getD_grown s.words (v / 64), hfound, Option.getD_some]
    have hlt : u % 64 < 64 := Nat.mod_lt u (by omega)
    have hplace : u % 64 = v % 64 ↔ u = v := by omega
    rw [hfound, ← hold]
    simp [hword, toBitVec_mask, hlt, hplace, or_comm]
  · have hne : u ≠ v := fun h => hword (h ▸ rfl)
    simp only [hword, if_false, hne, false_or, Option.map_eq_map, Option.map_id', getD_grown]

@[simp] theorem contains_erase {s : BitSet} {v u : Nat} :
    (s.erase v).contains u = true ↔ u ≠ v ∧ s.contains u = true := by
  simp only [contains_eq_bitAt, bitAt, erase, List.getElem?_modify]
  by_cases hword : v / 64 = u / 64
  · have hlt : u % 64 < 64 := Nat.mod_lt u (by omega)
    have hplace : u % 64 = v % 64 ↔ u = v := by omega
    cases s.words[u / 64]? with
    | none => simp
    | some word => simp [hword, toBitVec_mask, hlt, hplace, and_comm]
  · have hne : u ≠ v := fun h => hword (h ▸ rfl)
    simp [hword, hne]

-- ---------------------------------------------------------------------------
-- Counting
-- ---------------------------------------------------------------------------

theorem bitAt_cons_of_lt (word : UInt64) (words : List UInt64) {i : Nat} (h : i < 64) :
    bitAt (word :: words) i = word.toNat.testBit i := by
  rw [bitAt, Nat.div_eq_of_lt h, Nat.mod_eq_of_lt h]
  rfl

theorem bitAt_cons_add (word : UInt64) (words : List UInt64) (v : Nat) :
    bitAt (word :: words) (64 + v) = bitAt words v := by
  have hdiv : (64 + v) / 64 = v / 64 + 1 := by omega
  rw [bitAt, bitAt, hdiv, Nat.add_mod_left, List.getElem?_cons_succ]

theorem size_eq_countP (words : List UInt64) :
    (BitSet.mk words).size = (List.range (64 * words.length)).countP (bitAt words) := by
  induction words with
  | nil => rfl
  | cons word words ih =>
    have hfirst : (List.range 64).countP (bitAt (word :: words)) = ones word := by
      rw [ones, ← List.countP_eq_length_filter]
      exact List.countP_congr fun i hi => by rw [bitAt_cons_of_lt _ _ (List.mem_range.mp hi)]
    have hrest : bitAt (word :: words) ∘ (64 + ·) = bitAt words :=
      funext fun v => bitAt_cons_add word words v
    rw [List.length_cons, Nat.mul_succ, Nat.add_comm, List.range_add, List.countP_append,
      List.countP_map, hfirst, hrest, ← ih]
    rfl

/-- The members, which all lie in the words there are. -/
def members (s : BitSet) : Finset Nat :=
  ((List.range (64 * s.words.length)).filter s.contains).toFinset

theorem lt_of_contains {s : BitSet} {v : Nat} (h : s.contains v = true) :
    v < 64 * s.words.length := by
  by_contra hout
  have hword : s.words[v / 64]? = none := List.getElem?_eq_none (by omega)
  rw [contains, hword] at h
  cases h

@[simp] theorem mem_members {s : BitSet} {v : Nat} : v ∈ s.members ↔ s.contains v = true := by
  rw [members, List.mem_toFinset, List.mem_filter, List.mem_range]
  exact and_iff_right_of_imp lt_of_contains

theorem size_eq_card (s : BitSet) : s.size = s.members.card := by
  have hcontains : s.contains = bitAt s.words := funext (contains_eq_bitAt s)
  rw [size_eq_countP, List.countP_eq_length_filter, members, hcontains,
    List.toFinset_card_of_nodup (List.nodup_range.filter _)]

-- ---------------------------------------------------------------------------
-- Updates
-- ---------------------------------------------------------------------------

inductive Update where
  | insert (v : Nat)
  | erase (v : Nat)
  deriving DecidableEq, Repr

def update (s : BitSet) : Update → BitSet
  | .insert v => s.insert v
  | .erase v => s.erase v

def Update.applyTo (held : Finset Nat) : Update → Finset Nat
  | .insert v => Insert.insert v held
  | .erase v => held.erase v

theorem members_empty (bound : Nat) : (empty bound).members = ∅ := by
  ext v
  simp

theorem members_update (s : BitSet) (u : Update) :
    (s.update u).members = u.applyTo s.members := by
  ext w
  cases u with
  | insert v => simp [update, Update.applyTo]
  | erase v => simp [update, Update.applyTo]

/-- Each update keeps bit set and finite set in step. -/
theorem members_updates (s : BitSet) (updates : List Update) :
    (updates.foldl update s).members = updates.foldl Update.applyTo s.members := by
  induction updates generalizing s with
  | nil => rfl
  | cons u updates ih => rw [List.foldl_cons, List.foldl_cons, ih, members_update]

theorem members_grown (s : BitSet) (index : Nat) :
    (BitSet.mk (grown s.words index)).members = s.members := by
  ext v
  rw [mem_members, mem_members, contains_eq_bitAt, contains_eq_bitAt, bitAt, bitAt, getD_grown]

/-- A bit set is the finite set that the same updates make. -/
theorem updates_refine_finset (bound : Nat) (updates : List Update) :
    let s := updates.foldl update (empty bound)
    let held := updates.foldl Update.applyTo ∅
    (∀ v, s.contains v = true ↔ v ∈ held) ∧ s.size = held.card ∧
    ∀ index, (∀ v, (BitSet.mk (grown s.words index)).contains v = s.contains v) ∧
      (BitSet.mk (grown s.words index)).size = s.size := by
  intro s held
  have hmembers : s.members = held := by rw [members_updates, members_empty]
  refine ⟨fun v => ?_, ?_, fun index => ⟨fun v => ?_, ?_⟩⟩
  · rw [← hmembers, mem_members]
  · rw [size_eq_card, hmembers]
  · rw [Bool.eq_iff_iff, ← mem_members, ← mem_members, members_grown]
  · rw [size_eq_card, size_eq_card, members_grown]

end ClassHeader.BitSet
