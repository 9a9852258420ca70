import ClassHeader.Cpp.Header
import ClassHeader.Proofs.Cpp.Name
import ClassHeader.Proofs.Text.Netstring

/-!
# Names of parameters

A method has one name for each argument, and each of them is an identifier. The
numbered names of arguments differ from each other, and so do the names that local
variables give. A local variable may give the numbered name of another argument,
though, and if that one keeps it, two parameters have one name; this is the only way
in which names of parameters can be equal.
-/

namespace ClassHeader.Cpp

-- ---------------------------------------------------------------------------
-- Numbers behind identifiers
-- ---------------------------------------------------------------------------

theorem isIdentRest_of_mem_ofNat {n : Nat} {b : UInt8} (h : b ∈ Text.ofNat n) :
    isIdentRest b = true := by
  have hdigit := Netstring.isDigit_of_mem_ofNat h
  simp_all [isIdentRest, Netstring.isDigit]

theorem isDigit_getLast?_ofNat (s : Bytes) (n : Nat) :
    (s ++ Text.ofNat n).getLast?.any Netstring.isDigit = true := by
  rw [List.getLast?_append_of_ne_nil _ (Netstring.ofNat_ne_nil n),
    List.getLast?_eq_some_getLast (Netstring.ofNat_ne_nil n), Option.any_some]
  exact Netstring.isDigit_of_mem_ofNat (List.getLast_mem _)

theorem reserved_ends_without_digit : ∀ w ∈ reservedWords.map text,
    w.getLast?.any Netstring.isDigit = false := by
  decide +kernel

theorem isReserved_append_ofNat (s : Bytes) (n : Nat) : isReserved (s ++ Text.ofNat n) = false := by
  refine eq_false_of_ne_true fun h => ?_
  have hlast := reserved_ends_without_digit _ (isReserved_iff.mp h)
  rw [isDigit_getLast?_ofNat] at hlast
  cases hlast

theorem ofNat_injective : Function.Injective Text.ofNat := by
  intro n k h
  rw [← Netstring.numberOf_ofNat n, h, Netstring.numberOf_ofNat]

namespace Header

def numberedName (index : Nat) : Bytes := text "arg" ++ Text.ofNat index

theorem numberedName_injective : Function.Injective numberedName := by
  intro i j h
  exact ofNat_injective (List.append_cancel_left h)

-- ---------------------------------------------------------------------------
-- Local variables
-- ---------------------------------------------------------------------------

/-- A local variable that lives from the start on in the slot of a parameter and has its name. -/
structure Gives (v : ResolvedVariable) (p : NamedSlot) : Prop where
  startPc : v.startPc = 0
  slot : v.slot = p.slot
  name : mangle v.name = p.name

/-- Where naming stands after some of the variables: each parameter has its numbered name or one
of those taken, and of two with the same name one has just its number. -/
structure Named (slots : List UInt16) (table : List ResolvedVariable)
    (s : List NamedSlot × List Bytes) : Prop where
  slots_eq : s.1.map (·.slot) = slots
  source : ∀ {i p}, s.1[i]? = some p →
    p.name = numberedName i ∨ p.name ∈ s.2 ∧ ∃ v ∈ table, Gives v p
  apart : ∀ {i j p q}, s.1[i]? = some p → s.1[j]? = some q → i ≠ j → p.name = q.name →
    p.name = numberedName i ∨ q.name = numberedName j

theorem getElem?_numberedSlots {index : Nat} {slot : UInt16} {args : List FieldType} {i : Nat}
    {p : NamedSlot} (h : (numberedSlots index slot args)[i]? = some p) :
    p.name = numberedName (index + i) := by
  induction args generalizing index slot i with
  | nil => cases h
  | cons arg args ih =>
    cases i with
    | zero =>
      cases h
      rfl
    | succ i =>
      rw [Nat.add_comm i, ← Nat.add_assoc]
      exact ih h

theorem length_numberedSlots (index : Nat) (slot : UInt16) (args : List FieldType) :
    (numberedSlots index slot args).length = args.length := by
  induction args generalizing index slot with
  | nil => rfl
  | cons arg args ih => rw [numberedSlots, List.length_cons, ih, List.length_cons]

theorem named_start (slot : UInt16) (args : List FieldType) (table : List ResolvedVariable) :
    Named ((numberedSlots 0 slot args).map (·.slot)) table (numberedSlots 0 slot args, []) where
  slots_eq := rfl
  source {i p} hp := by
    have hname := getElem?_numberedSlots hp
    rw [Nat.zero_add] at hname
    exact .inl hname
  apart {i j p q} hp _ _ _ := by
    have hname := getElem?_numberedSlots hp
    rw [Nat.zero_add] at hname
    exact .inl hname

theorem renameSlot_some {slot : UInt16} {name : Bytes} {slots renamed : List NamedSlot}
    (h : renameSlot slot name slots = some renamed) :
    ∃ k p, slots[k]? = some p ∧ p.slot = slot ∧ renamed = slots.set k { p with name } := by
  induction slots generalizing renamed with
  | nil => cases h
  | cons first rest ih =>
    rw [renameSlot] at h
    split_ifs at h with hslot
    · cases h
      exact ⟨0, first, rfl, hslot, rfl⟩
    · obtain ⟨others, hothers, rfl⟩ := Option.map_eq_some_iff.mp h
      obtain ⟨k, p, hp, hslot, rfl⟩ := ih hothers
      exact ⟨k + 1, p, hp, hslot, rfl⟩

section

variable {slots : List UInt16} {table : List ResolvedVariable} {v : ResolvedVariable}
  {current : List NamedSlot} {taken : List Bytes}

theorem Named.rename (h : Named slots table (current, taken)) (hv : v ∈ table)
    (hstart : v.startPc = 0) (hnew : mangle v.name ∉ taken) {k : Nat} {p : NamedSlot}
    (hp : current[k]? = some p) (hslot : p.slot = v.slot) :
    Named slots table
      (current.set k { p with name := mangle v.name }, mangle v.name :: taken) := by
  have hget : ∀ {i q}, (current.set k { p with name := mangle v.name })[i]? = some q →
      k = i ∧ q = { p with name := mangle v.name } ∨ k ≠ i ∧ current[i]? = some q := by
    intro i q hq
    by_cases hi : k = i
    · subst hi
      rw [List.getElem?_set_self (List.getElem?_eq_some_iff.mp hp).1] at hq
      exact .inl ⟨rfl, (Option.some.inj hq).symm⟩
    · rw [List.getElem?_set_ne hi] at hq
      exact .inr ⟨hi, hq⟩
  have hother : ∀ {i q}, current[i]? = some q → q.name = mangle v.name →
      q.name = numberedName i := by
    intro i q hq hname
    rcases h.source hq with hnumber | ⟨htaken, -⟩
    · exact hnumber
    · exact absurd (hname ▸ htaken) hnew
  refine ⟨?_, ?_, ?_⟩
  · obtain ⟨hk, hget⟩ := List.getElem?_eq_some_iff.mp hp
    have hk : k < (current.map (·.slot)).length := by rwa [List.length_map]
    have hsame : (current.map (·.slot))[k] = p.slot := by
      rw [List.getElem_map, hget]
    rw [List.map_set, ← h.slots_eq, ← hsame, List.set_getElem_self]
  · intro i q hq
    rcases hget hq with ⟨rfl, rfl⟩ | ⟨-, hq⟩
    · exact .inr ⟨List.mem_cons_self, v, hv, hstart, hslot.symm, rfl⟩
    · exact (h.source hq).imp_right fun ⟨htaken, hgiven⟩ =>
        ⟨List.mem_cons_of_mem _ htaken, hgiven⟩
  · intro i j q r hq hr hne hname
    rcases hget hq with ⟨rfl, rfl⟩ | ⟨-, hq⟩
    · rcases hget hr with ⟨rfl, -⟩ | ⟨-, hr⟩
      · exact absurd rfl hne
      · exact .inr (hother hr hname.symm)
    · rcases hget hr with ⟨rfl, rfl⟩ | ⟨-, hr⟩
      · exact .inl (hother hq hname)
      · exact h.apart hq hr hne hname

theorem Named.applyVariable (h : Named slots table (current, taken)) (hv : v ∈ table) :
    Named slots table (applyVariable (current, taken) v) := by
  unfold Header.applyVariable
  dsimp only
  split_ifs with hskip
  · exact h
  · rw [not_or, not_not] at hskip
    cases hrenamed : renameSlot v.slot (mangle v.name) current with
    | none => exact h
    | some renamed =>
      obtain ⟨k, p, hp, hslot, rfl⟩ := renameSlot_some hrenamed
      exact h.rename hv hskip.1 hskip.2 hp hslot

theorem Named.foldl {s : List NamedSlot × List Bytes} (h : Named slots table s)
    {rest : List ResolvedVariable} (hrest : rest ⊆ table) :
    Named slots table (rest.foldl Header.applyVariable s) := by
  induction rest generalizing s with
  | nil => exact h
  | cons v rest ih =>
    rw [List.cons_subset] at hrest
    exact ih (h.applyVariable hrest.1) hrest.2

end

-- ---------------------------------------------------------------------------
-- Parameters of a method
-- ---------------------------------------------------------------------------

def argumentSlots (m : ResolvedMethod) : List UInt16 :=
  (numberedSlots 0 (if m.access.has AccessFlags.isStatic then 0 else 1) m.type.args).map (·.slot)

theorem exists_named (m : ResolvedMethod) : ∃ s, Named (argumentSlots m) (slotVariables m) s ∧
    paramNames m = s.1.map (·.name) :=
  ⟨_, (named_start _ _ _).foldl (List.Subset.refl _), rfl⟩

theorem length_paramNames (m : ResolvedMethod) : (paramNames m).length = m.type.args.length := by
  obtain ⟨s, hs, hnames⟩ := exists_named m
  have hlength := congrArg List.length hs.slots_eq
  rw [argumentSlots, List.length_map, List.length_map, length_numberedSlots] at hlength
  rw [hnames, List.length_map, hlength]

theorem isIdentifier_numberedName (index : Nat) :
    isIdentifier (numberedName index) = true ∧ isReserved (numberedName index) = false :=
  ⟨isIdentifier_append (by decide) fun _ => isIdentRest_of_mem_ofNat,
    isReserved_append_ofNat _ _⟩

theorem isIdentifier_of_mem_paramNames {m : ResolvedMethod} {name : Bytes}
    (h : name ∈ paramNames m) : isIdentifier name = true ∧ isReserved name = false := by
  obtain ⟨s, hs, hnames⟩ := exists_named m
  rw [hnames, List.mem_map] at h
  obtain ⟨p, hp, rfl⟩ := h
  obtain ⟨i, hi⟩ := List.mem_iff_getElem?.mp hp
  rcases hs.source hi with hnumber | ⟨-, v, -, hgives⟩
  · rw [hnumber]
    exact isIdentifier_numberedName i
  · rw [← hgives.name]
    exact ⟨isIdentifier_mangle _, isReserved_mangle _⟩

/-- Parameter `i` keeps its numbered name, and a local variable gives that name to parameter
`j`. -/
structure Borrowed (m : ResolvedMethod) (i j : Nat) : Prop where
  kept : (paramNames m)[i]? = some (numberedName i)
  given : (paramNames m)[j]? = some (numberedName i)
  source : ∃ v ∈ slotVariables m, v.startPc = 0 ∧ (argumentSlots m)[j]? = some v.slot ∧
    mangle v.name = numberedName i

theorem borrowed_of_eq {m : ResolvedMethod} {s : List NamedSlot × List Bytes} {i j : Nat}
    {p q : NamedSlot} (hs : Named (argumentSlots m) (slotVariables m) s)
    (hnames : paramNames m = s.1.map (·.name)) (hp : s.1[i]? = some p) (hq : s.1[j]? = some q)
    (hne : i ≠ j) (heq : p.name = q.name) (hnumber : p.name = numberedName i) :
    Borrowed m i j := by
  refine ⟨?_, ?_, ?_⟩
  · rw [hnames, List.getElem?_map, hp, Option.map_some, hnumber]
  · rw [hnames, List.getElem?_map, hq, Option.map_some, ← heq, hnumber]
  · rcases hs.source hq with hown | ⟨-, v, hv, hgives⟩
    · exact absurd (numberedName_injective (hnumber.symm.trans (heq.trans hown))) hne
    · refine ⟨v, hv, hgives.startPc, ?_, ?_⟩
      · rw [← hs.slots_eq, List.getElem?_map, hq, Option.map_some, hgives.slot]
      · rw [hgives.name, ← heq, hnumber]

/-- There is one name for each argument, an identifier and no reserved word, and all of them are
different unless a local variable gives a parameter the numbered name that another one keeps. -/
theorem paramNames_nodup_iff (m : ResolvedMethod) :
    (paramNames m).length = m.type.args.length ∧
      (∀ name ∈ paramNames m, isIdentifier name = true ∧ isReserved name = false) ∧
      ((paramNames m).Nodup ↔ ¬ ∃ i j, i ≠ j ∧ Borrowed m i j) := by
  refine ⟨length_paramNames m, fun name => isIdentifier_of_mem_paramNames, ?_, fun hnone => ?_⟩
  · rintro hnodup ⟨i, j, hne, hborrowed⟩
    have hi := (List.getElem?_eq_some_iff.mp hborrowed.kept).1
    have hj := (List.getElem?_eq_some_iff.mp hborrowed.given).1
    have heq := hborrowed.kept.trans hborrowed.given.symm
    rw [List.getElem?_eq_getElem hi, List.getElem?_eq_getElem hj] at heq
    exact hne ((hnodup.getElem_inj_iff).mp (Option.some.inj heq))
  · obtain ⟨s, hs, hnames⟩ := exists_named m
    rw [hnames, List.nodup_iff_getElem?_ne_getElem?]
    intro i j hlt hj heq
    rw [List.length_map] at hj
    have hp := List.getElem?_eq_getElem (hlt.trans hj)
    have hq := List.getElem?_eq_getElem hj
    rw [List.getElem?_map, List.getElem?_map, hp, hq] at heq
    have hname := Option.some.inj heq
    -- One of the two has its own number; the other then has it from a variable.
    rcases hs.apart hp hq hlt.ne hname with hnumber | hnumber
    · exact hnone ⟨i, j, hlt.ne, borrowed_of_eq hs hnames hp hq hlt.ne hname hnumber⟩
    · exact hnone ⟨j, i, hlt.ne', borrowed_of_eq hs hnames hq hp hlt.ne' hname.symm hnumber⟩

def borrowing : ResolvedMethod where
  name := text "f"
  type := ⟨[.primitive .int, .primitive .int], none⟩
  access := AccessFlags.isStatic
  attributes := [.code {
    maxStack := 0, maxLocals := 2, instructions := [], handlers := []
    attributes := [.localVariables [{
      name := text "arg1", type := .primitive .int, startPc := 0, length := 1, slot := 0 }]] }]

theorem paramNames_equal_numbered_name :
    paramNames borrowing = [text "arg1", text "arg1"] ∧ ¬ (paramNames borrowing).Nodup := by
  have hnames : paramNames borrowing = [text "arg1", text "arg1"] := by decide +kernel
  refine ⟨hnames, ?_⟩
  rw [hnames]
  decide

end Header
end ClassHeader.Cpp
