import ClassHeader.CrossCheck
import Mathlib

/-!
# Agreement of two readings

`Agrees` says in which parts a class and another reading of it have to be alike.
An `Entry` is a place at which a comparison can report a disagreement; the
entries of a class stand in the order in which it is compared. The readings agree
exactly if they agree at each entry (`forall_entries_iff`).
-/

namespace ClassHeader.CrossCheck

-- ---------------------------------------------------------------------------
-- Readings that agree
-- ---------------------------------------------------------------------------

def SameName (ours theirs : Result Bytes) : Prop :=
  ∃ name, ours = .ok name ∧ theirs = .ok name

/-- The length of the code of a method, -1 where code is absent or cannot be parsed. -/
inductive CodeLength (p : Pool) (m : MemberInfo) : Int → Prop
  | parsed {a : Attribute} {code : Code}
      (hfound : findAttribute? p AttributeName.code m.attributes = some a)
      (hcode : Payload.code p a = .ok code) : CodeLength p m code.code.length
  | unparseable {a : Attribute} {e : Error}
      (hfound : findAttribute? p AttributeName.code m.attributes = some a)
      (hcode : Payload.code p a = .error e) : CodeLength p m (-1)
  | absent (hnone : findAttribute? p AttributeName.code m.attributes = none) :
      CodeLength p m (-1)

structure MemberAgrees (p : Pool) (m : MemberInfo) (theirs : MemberReading) : Prop where
  name : SameName (m.name p) theirs.name
  descriptor : SameName (m.descriptor p) theirs.descriptor
  access : m.access = theirs.access

structure MethodAgrees (p : Pool) (m : MemberInfo) (theirs : MemberReading) : Prop
    extends MemberAgrees p m theirs where
  codeLength : CodeLength p m (lengthOf theirs.codeLength)

/-- A class agrees with another reading of it. No superclass counts as one with an empty name. -/
structure Agrees (c : ClassFile) (r : Reading) : Prop where
  major : c.major = r.major
  minor : c.minor = r.minor
  access : c.access = r.access
  this : SameName c.name r.thisName
  super : SameName c.superName (r.superName.getD (.ok []))
  interfaces : List.Forall₂ (fun i theirs => SameName (c.pool.className i) theirs)
    c.interfaces r.interfaces
  fields : List.Forall₂ (MemberAgrees c.pool) c.fields r.fields
  methods : List.Forall₂ (MethodAgrees c.pool) c.methods r.methods

theorem CodeLength.lengthOf_eq {p : Pool} {m : MemberInfo} {n : Int} (h : CodeLength p m n) :
    lengthOf (codeLength? p m) = n := by
  cases h with
  | parsed hfound hcode => simp [codeLength?, hfound, hcode, Except.toOption, lengthOf]
  | unparseable hfound hcode => simp [codeLength?, hfound, hcode, Except.toOption, lengthOf]
  | absent hnone => simp [codeLength?, hnone, lengthOf]

theorem codeLength_lengthOf (p : Pool) (m : MemberInfo) :
    CodeLength p m (lengthOf (codeLength? p m)) := by
  cases hfound : findAttribute? p AttributeName.code m.attributes with
  | none =>
    have hlength : codeLength? p m = none := by simp [codeLength?, hfound]
    rw [hlength]
    exact .absent hfound
  | some a =>
    cases hcode : Payload.code p a with
    | error e =>
      have hlength : codeLength? p m = none := by simp [codeLength?, hfound, hcode, Except.toOption]
      rw [hlength]
      exact .unparseable hfound hcode
    | ok code =>
      have hlength : codeLength? p m = some code.code.length := by
        simp [codeLength?, hfound, hcode, Except.toOption]
      rw [hlength]
      exact .parsed hfound hcode

theorem codeLength_iff {p : Pool} {m : MemberInfo} {n : Int} :
    CodeLength p m n ↔ lengthOf (codeLength? p m) = n := by
  constructor
  · exact CodeLength.lengthOf_eq
  · rintro rfl
    exact codeLength_lengthOf p m

-- ---------------------------------------------------------------------------
-- Entries
-- ---------------------------------------------------------------------------

inductive MemberPart where
  | fields
  | methods
  deriving DecidableEq, Repr

namespace MemberPart

def name : MemberPart → Bytes
  | .fields => text "fields"
  | .methods => text "methods"

def ours (c : ClassFile) : MemberPart → List MemberInfo
  | .fields => c.fields
  | .methods => c.methods

def theirs (r : Reading) : MemberPart → List MemberReading
  | .fields => r.fields
  | .methods => r.methods

end MemberPart

/-- A place at which a comparison can find a disagreement. -/
inductive Entry where
  | major
  | minor
  | access
  | this
  | super
  | interfaceCount
  | interface (i : Nat)
  | memberCount (part : MemberPart)
  /-- Whether the other reading can tell the name and the descriptor of the member. -/
  | member (part : MemberPart) (i : Nat)
  | memberName (part : MemberPart) (i : Nat)
  | descriptor (part : MemberPart) (i : Nat)
  | memberAccess (part : MemberPart) (i : Nat)
  | codeLength (i : Nat)
  deriving DecidableEq, Repr

/-- Both lists have an element at the position, and these are related. -/
def At {α β : Type} (R : α → β → Prop) (ours : List α) (theirs : List β) (i : Nat) : Prop :=
  ∃ a b, ours[i]? = some a ∧ theirs[i]? = some b ∧ R a b

namespace Entry

def path : Entry → List Bytes
  | .major => [text "major_version"]
  | .minor => [text "minor_version"]
  | .access => [text "access_flags"]
  | .this => [text "this_class"]
  | .super => [text "super_class"]
  | .interfaceCount => [text "interfaces"]
  | .interface i => [text "interfaces", Text.ofNat i]
  | .memberCount part => [part.name]
  | .member part i => [part.name, Text.ofNat i]
  | .memberName part i => [part.name, Text.ofNat i, text "name"]
  | .descriptor part i => [part.name, Text.ofNat i, text "descriptor"]
  | .memberAccess part i => [part.name, Text.ofNat i, text "access_flags"]
  | .codeLength i => [MemberPart.methods.name, Text.ofNat i, text "code_length"]

def Agrees (c : ClassFile) (r : Reading) : Entry → Prop
  | .major => c.major = r.major
  | .minor => c.minor = r.minor
  | .access => c.access = r.access
  | .this => SameName c.name r.thisName
  | .super => SameName c.superName (r.superName.getD (.ok []))
  | .interfaceCount => c.interfaces.length = r.interfaces.length
  | .interface i => At (fun i theirs => SameName (c.pool.className i) theirs)
      c.interfaces r.interfaces i
  | .memberCount part => (part.ours c).length = (part.theirs r).length
  | .member part i =>
    At (fun _ theirs => (∃ name, theirs.name = .ok name) ∧
      ∃ descriptor, theirs.descriptor = .ok descriptor) (part.ours c) (part.theirs r) i
  | .memberName part i =>
    At (fun m theirs => SameName (m.name c.pool) theirs.name) (part.ours c) (part.theirs r) i
  | .descriptor part i =>
    At (fun m theirs => SameName (m.descriptor c.pool) theirs.descriptor)
      (part.ours c) (part.theirs r) i
  | .memberAccess part i =>
    At (fun m theirs => m.access = theirs.access) (part.ours c) (part.theirs r) i
  | .codeLength i =>
    At (fun m theirs => CodeLength c.pool m (lengthOf theirs.codeLength)) c.methods r.methods i

end Entry

def listEntries (count : Entry) (entriesAt : Nat → List Entry) (length : Nat) : List Entry :=
  count :: (List.range length).flatMap entriesAt

namespace MemberPart

def entriesAt (part : MemberPart) (i : Nat) : List Entry :=
  [.member part i, .memberName part i, .descriptor part i, .memberAccess part i] ++
    match part with
    | .fields => []
    | .methods => [.codeLength i]

def entries (part : MemberPart) (c : ClassFile) : List Entry :=
  listEntries (.memberCount part) part.entriesAt (part.ours c).length

end MemberPart

def classEntries : List Entry := [.major, .minor, .access, .this, .super]

def interfaceEntries (c : ClassFile) : List Entry :=
  listEntries .interfaceCount (fun i => [.interface i]) c.interfaces.length

def entries (c : ClassFile) : List Entry :=
  classEntries ++ (interfaceEntries c ++
    (MemberPart.fields.entries c ++ MemberPart.methods.entries c))

-- ---------------------------------------------------------------------------
-- Agreement at all entries
-- ---------------------------------------------------------------------------

section

variable {α β : Type} {R S : α → β → Prop} {ours : List α} {theirs : List β} {i : Nat}

theorem at_iff {a : α} {b : β} (ha : ours[i]? = some a) (hb : theirs[i]? = some b) :
    At R ours theirs i ↔ R a b := by
  simp [At, ha, hb]

theorem at_and : At R ours theirs i ∧ At S ours theirs i ↔
    At (fun a b => R a b ∧ S a b) ours theirs i := by
  constructor
  · rintro ⟨⟨a, b, ha, hb, hR⟩, hS⟩
    exact ⟨a, b, ha, hb, hR, (at_iff ha hb).mp hS⟩
  · rintro ⟨a, b, ha, hb, hR, hS⟩
    exact ⟨⟨a, b, ha, hb, hR⟩, a, b, ha, hb, hS⟩

theorem forall₂_iff_at : List.Forall₂ R ours theirs ↔
    ours.length = theirs.length ∧ ∀ i < ours.length, At R ours theirs i := by
  rw [List.forall₂_iff_get]
  refine and_congr_right fun hlength => forall_congr' fun i => ?_
  constructor
  · intro h hi
    have hi' : i < theirs.length := hlength ▸ hi
    exact ⟨_, _, List.getElem?_eq_getElem hi, List.getElem?_eq_getElem hi', h hi hi'⟩
  · intro h hi hi'
    exact (at_iff (List.getElem?_eq_getElem hi) (List.getElem?_eq_getElem hi')).mp (h hi)

end

variable {c : ClassFile} {r : Reading}

theorem forall_listEntries_iff {α β : Type} {R : α → β → Prop} {ours : List α} {theirs : List β}
    {count : Entry} {entriesAt : Nat → List Entry}
    (hcount : count.Agrees c r ↔ ours.length = theirs.length)
    (hat : ∀ i, (∀ entry ∈ entriesAt i, entry.Agrees c r) ↔ At R ours theirs i) :
    (∀ entry ∈ listEntries count entriesAt ours.length, entry.Agrees c r) ↔
      List.Forall₂ R ours theirs := by
  simp only [listEntries, List.forall_mem_cons, List.forall_mem_flatMap, List.mem_range, hcount,
    hat, forall₂_iff_at]

theorem forall_memberEntries_iff {part : MemberPart} {i : Nat} :
    (∀ entry ∈ part.entriesAt i, entry.Agrees c r) ↔
      At (MemberAgrees c.pool) (part.ours c) (part.theirs r) i ∧
        (part = .methods → (Entry.codeLength i).Agrees c r) := by
  have hmember : At (MemberAgrees c.pool) (part.ours c) (part.theirs r) i ↔
      (Entry.member part i).Agrees c r ∧ (Entry.memberName part i).Agrees c r ∧
        (Entry.descriptor part i).Agrees c r ∧ (Entry.memberAccess part i).Agrees c r := by
    simp only [Entry.Agrees, at_and]
    constructor
    · rintro ⟨m, theirs, hm, htheirs, ⟨name, hname, hname'⟩, ⟨descriptor, hd, hd'⟩, haccess⟩
      exact ⟨m, theirs, hm, htheirs, ⟨⟨name, hname'⟩, descriptor, hd'⟩, ⟨name, hname, hname'⟩,
        ⟨descriptor, hd, hd'⟩, haccess⟩
    · rintro ⟨m, theirs, hm, htheirs, -, hname, hdescriptor, haccess⟩
      exact ⟨m, theirs, hm, htheirs, hname, hdescriptor, haccess⟩
  rw [hmember]
  cases part <;> simp [MemberPart.entriesAt, and_assoc]

theorem forall_fieldEntries_iff {i : Nat} :
    (∀ entry ∈ MemberPart.fields.entriesAt i, entry.Agrees c r) ↔
      At (MemberAgrees c.pool) c.fields r.fields i :=
  forall_memberEntries_iff.trans (and_iff_left (fun h => nomatch h))

theorem forall_methodEntries_iff {i : Nat} :
    (∀ entry ∈ MemberPart.methods.entriesAt i, entry.Agrees c r) ↔
      At (MethodAgrees c.pool) c.methods r.methods i := by
  rw [forall_memberEntries_iff, forall_prop_of_true rfl, Entry.Agrees]
  refine at_and.trans ?_
  constructor
  · rintro ⟨m, theirs, hm, htheirs, hmember, hlength⟩
    exact ⟨m, theirs, hm, htheirs, hmember, hlength⟩
  · rintro ⟨m, theirs, hm, htheirs, hmember, hlength⟩
    exact ⟨m, theirs, hm, htheirs, hmember, hlength⟩

/-- The readings agree if and only if they agree at each entry. -/
theorem forall_entries_iff : (∀ entry ∈ entries c, entry.Agrees c r) ↔ Agrees c r := by
  have hclass : (∀ entry ∈ classEntries, entry.Agrees c r) ↔ c.major = r.major ∧
      c.minor = r.minor ∧ c.access = r.access ∧ SameName c.name r.thisName ∧
      SameName c.superName (r.superName.getD (.ok [])) := by
    simp only [classEntries, List.forall_mem_cons, Entry.Agrees, List.not_mem_nil,
      false_implies, implies_true, and_true]
  have hinterfaces : (∀ entry ∈ interfaceEntries c, entry.Agrees c r) ↔ _ :=
    forall_listEntries_iff Iff.rfl fun _ => List.forall_mem_singleton
  have hfields : (∀ entry ∈ MemberPart.fields.entries c, entry.Agrees c r) ↔ _ :=
    forall_listEntries_iff Iff.rfl fun _ => forall_fieldEntries_iff
  have hmethods : (∀ entry ∈ MemberPart.methods.entries c, entry.Agrees c r) ↔ _ :=
    forall_listEntries_iff Iff.rfl fun _ => forall_methodEntries_iff
  rw [entries, List.forall_mem_append, List.forall_mem_append, List.forall_mem_append, hclass,
    hinterfaces, hfields, hmethods]
  constructor
  · rintro ⟨⟨hmajor, hminor, haccess, hthis, hsuper⟩, hinterfaces, hfields, hmethods⟩
    exact ⟨hmajor, hminor, haccess, hthis, hsuper, hinterfaces, hfields, hmethods⟩
  · intro h
    exact ⟨⟨h.major, h.minor, h.access, h.this, h.super⟩, h.interfaces, h.fields, h.methods⟩

end ClassHeader.CrossCheck
