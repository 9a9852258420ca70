import ClassHeader.ClassFile.Basic
import Mathlib

/-!
# Class files that can be written

Encoding writes every count and length in the width of its field and passes over
empty slots of the pool, whatever they are. A class file is `Representable` if
nothing is lost that way: its counts fit their fields, and its empty slots are
those that every reader of the file leaves empty.

`slotted_iff` relates two views of the slots of a pool: what stands at each
index, and how the slots are filled with one constant after the other.
-/

namespace ClassHeader

namespace Pool

-- ---------------------------------------------------------------------------
-- Slots
-- ---------------------------------------------------------------------------

def EmptyBehindWide (entries : List (Option Constant)) : Prop :=
  ∀ i, entries[i + 1]? = some none ↔ ∃ c, entries[i]? = some (some c) ∧ c.isWide = true

/-- Slot zero and the slots behind wide constants are there and empty; all others are
occupied. -/
structure Slotted (entries : List (Option Constant)) : Prop where
  zero_empty : entries[0]? = some none
  behind_wide : EmptyBehindWide entries

/-- Slots filled with one constant after the other, two slots for a wide one. -/
inductive Filled : List (Option Constant) → Prop
  | nil : Filled []
  | narrow {c : Constant} {rest : List (Option Constant)} :
      c.isWide = false → Filled rest → Filled (some c :: rest)
  | wide {c : Constant} {rest : List (Option Constant)} :
      c.isWide = true → Filled rest → Filled (some c :: none :: rest)

instance Filled.decidable : (entries : List (Option Constant)) → Decidable (Filled entries)
  | [] => .isTrue .nil
  | none :: _ => .isFalse nofun
  | [some c] =>
    decidable_of_iff (c.isWide = false) ⟨fun h => .narrow h .nil, fun | .narrow h _ => h⟩
  | some c :: none :: rest =>
    have := Filled.decidable rest
    decidable_of_iff (c.isWide = true ∧ Filled rest)
      ⟨fun h => .wide h.1 h.2, fun | .wide h h' => ⟨h, h'⟩⟩
  | some c :: some d :: rest =>
    have := Filled.decidable (some d :: rest)
    decidable_of_iff (c.isWide = false ∧ Filled (some d :: rest))
      ⟨fun h => .narrow h.1 h.2, fun | .narrow h h' => ⟨h, h'⟩⟩

theorem emptyBehindWide_cons {entry : Option Constant} {rest : List (Option Constant)} :
    EmptyBehindWide (entry :: rest) ↔
      (rest[0]? = some none ↔ ∃ c, entry = some c ∧ c.isWide = true) ∧ EmptyBehindWide rest := by
  unfold EmptyBehindWide
  rw [← Nat.and_forall_add_one]
  simp

theorem Filled.emptyBehindWide {rest : List (Option Constant)} (h : Filled rest)
    {before : Option Constant} (hbefore : ∀ c ∈ before, c.isWide = false) :
    EmptyBehindWide (before :: rest) := by
  induction h generalizing before with
  | nil => grind [EmptyBehindWide]
  | @narrow c rest hc _ ih =>
    rw [emptyBehindWide_cons]
    exact ⟨by grind, ih (by simpa using hc)⟩
  | @wide c rest hc _ ih =>
    rw [emptyBehindWide_cons, emptyBehindWide_cons]
    exact ⟨by grind, by simpa using hc, ih (by simp)⟩

theorem EmptyBehindWide.filled {before : Option Constant}
    (hbefore : ∀ c ∈ before, c.isWide = false) :
    (rest : List (Option Constant)) → EmptyBehindWide (before :: rest) → Filled rest
  | [], _ => .nil
  | none :: rest, h => by
    obtain ⟨c, hc, hwide⟩ := (emptyBehindWide_cons.mp h).1.mp rfl
    simp [hbefore c hc] at hwide
  | some c :: rest, h => by
    have hnext := (emptyBehindWide_cons.mp h).2
    cases hc : c.isWide with
    | false => exact .narrow hc (EmptyBehindWide.filled (by simpa using hc) rest hnext)
    | true =>
      -- The slot behind a wide constant is there and empty, so filling goes on behind it.
      cases rest with
      | nil => simpa [hc] using (emptyBehindWide_cons.mp hnext).1
      | cons second rest =>
        have hempty : second = none := by simpa [hc] using (emptyBehindWide_cons.mp hnext).1
        subst hempty
        exact .wide hc (EmptyBehindWide.filled (by simp) rest (emptyBehindWide_cons.mp hnext).2)

theorem slotted_iff {entries : List (Option Constant)} :
    Slotted entries ↔ ∃ rest, entries = none :: rest ∧ Filled rest := by
  constructor
  · rintro ⟨hzero, hbehind⟩
    cases entries with
    | nil => simp at hzero
    | cons first rest =>
      have hfirst : first = none := by simpa using hzero
      subst hfirst
      exact ⟨rest, rfl, hbehind.filled (by simp)⟩
  · rintro ⟨rest, rfl, h⟩
    exact ⟨rfl, h.emptyBehindWide (by simp)⟩

instance Slotted.decidable : (entries : List (Option Constant)) → Decidable (Slotted entries)
  | [] => .isFalse fun h => nomatch h.zero_empty
  | some _ :: _ => .isFalse fun h => nomatch h.zero_empty
  | none :: rest => decidable_of_iff (Filled rest) (by simp [slotted_iff])

end Pool

-- ---------------------------------------------------------------------------
-- Counts and lengths
-- ---------------------------------------------------------------------------

/-- A list whose length fits a two-byte count, of elements that fit themselves. -/
def FitsTable {α : Type} (fits : α → Prop) (elements : List α) : Prop :=
  elements.length ≤ 65535 ∧ ∀ a ∈ elements, fits a

instance {α : Type} (fits : α → Prop) [DecidablePred fits] (elements : List α) :
    Decidable (FitsTable fits elements) := by
  unfold FitsTable
  infer_instance

def Constant.Representable : Constant → Prop
  | .utf8 value => value.length ≤ 65535
  | .methodHandle kind _ => 1 ≤ kind ∧ kind ≤ 9
  | _ => True

instance : DecidablePred Constant.Representable := fun c => by
  unfold Constant.Representable
  split <;> infer_instance

@[mk_iff] structure Pool.Representable (p : Pool) : Prop where
  count_pos : 1 ≤ p.entries.length
  count_le : p.entries.length ≤ 65535
  slotted : Slotted p.entries
  constants : ∀ entry ∈ p.entries, ∀ c ∈ entry, c.Representable

instance (p : Pool) : Decidable p.Representable :=
  decidable_of_iff _ (Pool.representable_iff p).symm

def Attribute.Representable (a : Attribute) : Prop := a.info.length < 2 ^ 32

instance : DecidablePred Attribute.Representable := fun a =>
  inferInstanceAs (Decidable (a.info.length < 2 ^ 32))

def MemberInfo.Representable (m : MemberInfo) : Prop :=
  FitsTable Attribute.Representable m.attributes

instance : DecidablePred MemberInfo.Representable := fun m =>
  inferInstanceAs (Decidable (FitsTable Attribute.Representable m.attributes))

@[mk_iff] structure ClassFile.Representable (c : ClassFile) : Prop where
  magic : c.magic = 0xCAFEBABE
  major : c.major ≤ 65
  pool : c.pool.Representable
  interfaces : c.interfaces.length ≤ 65535
  fields : FitsTable MemberInfo.Representable c.fields
  methods : FitsTable MemberInfo.Representable c.methods
  attributes : FitsTable Attribute.Representable c.attributes

instance (c : ClassFile) : Decidable c.Representable :=
  decidable_of_iff _ (ClassFile.representable_iff c).symm

end ClassHeader
