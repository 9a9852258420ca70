import ClassHeader.Proofs.Bytecode.Accepted
import ClassHeader.Proofs.Resolve.Stripped

/-!
# What resolving keeps

`Resolver.resolve_mirrors`: a resolved class has what its class file has, in the same
order. Interfaces, members, handlers and instructions stand there one for one, an
instruction has a reference exactly when its opcode has an index to follow, and the
attributes of each level, however deep inside of code, are all but those of ignored
names. Code holds shorter code only, so that resolving comes to an end.
-/

namespace ClassHeader

-- ---------------------------------------------------------------------------
-- Instructions
-- ---------------------------------------------------------------------------

namespace Bytecode

theorem Instruction.isSome_poolIndex? {i : Instruction} (h : i.operand.Fits i.opcode) :
    i.poolIndex?.isSome = i.opcode.referencesPool := by
  obtain ⟨op, offset, operand⟩ := i
  cases operand with
  | pool index =>
    rcases h with hform | ⟨hform, -⟩
    all_goals simp [poolIndex?, Opcode.referencesPool, hform]
  | branch distance =>
    rcases h with hform | ⟨hform, -⟩
    all_goals simp [poolIndex?, Opcode.referencesPool, hform]
  | _ => simp_all [Operand.Fits, poolIndex?, Opcode.referencesPool]

end Bytecode

/-- The instruction stands there again, with a reference exactly when its opcode refers to the
pool: to what its index stands for. -/
structure ResolvedInstruction.Mirrors (p : Pool) (i : Bytecode.Instruction)
    (resolved : ResolvedInstruction) : Prop where
  instruction : resolved.instruction = i
  isSome_ref : resolved.ref.isSome = i.opcode.referencesPool
  ref : ∀ ref, resolved.ref = some ref → ∃ index, i.poolIndex? = some index ∧
    p.resolve index = .ok ref

structure ResolvedHandler.Mirrors (p : Pool) (h : ExceptionHandler) (resolved : ResolvedHandler) :
    Prop where
  startPc : resolved.startPc = h.startPc
  stopPc : resolved.stopPc = h.stopPc
  handlerPc : resolved.handlerPc = h.handlerPc
  catchType : h.catchType ≠ 0 → p.className h.catchType = .ok resolved.catchType

-- ---------------------------------------------------------------------------
-- Attributes
-- ---------------------------------------------------------------------------

def Attribute.IsIgnored (ignored : List Bytes) (p : Pool) (a : Attribute) : Prop :=
  ∃ name ∈ ignored, a.name p = .ok name

instance (ignored : List Bytes) (p : Pool) : DecidablePred (Attribute.IsIgnored ignored p) :=
  fun a => inferInstanceAs (Decidable (∃ name ∈ ignored, a.name p = .ok name))

/-- All attributes have names, and the resolved ones have those that are not ignored. -/
def KeepsNames (ignored : List Bytes) (p : Pool) (stored : List Attribute)
    (resolved : List ResolvedAttribute) : Prop :=
  ∃ names, stored.mapM (·.name p) = .ok names ∧
    resolved.map (·.name) = names.filter (· ∉ ignored)

/-- The resolved attribute has the name of the stored one, and if it is code, the same
instructions, handlers and attributes inside of it, but for ignored attributes. -/
inductive ResolvedAttribute.Mirrors (ignored : List Bytes) (p : Pool) :
    Attribute → ResolvedAttribute → Prop
  | flat {a : Attribute} {resolved : ResolvedAttribute} (hname : a.name p = .ok resolved.name)
    (hflat : resolved.name ≠ AttributeName.code) : Mirrors ignored p a resolved
  | code {a : Attribute} {c : Code} {body : ResolvedCode}
    (parsed : Payload.code p a = .ok c)
    (instructions : List.Forall₂ (ResolvedInstruction.Mirrors p) c.instructions body.instructions)
    (handlers : List.Forall₂ (ResolvedHandler.Mirrors p) c.handlers body.handlers)
    (names : KeepsNames ignored p c.attributes body.attributes)
    (each : List.Forall₂ (Mirrors ignored p) (c.attributes.filter (¬ ·.IsIgnored ignored p))
      body.attributes) : Mirrors ignored p a (.code body)

structure AttributesMirror (ignored : List Bytes) (p : Pool) (stored : List Attribute)
    (resolved : List ResolvedAttribute) : Prop where
  names : KeepsNames ignored p stored resolved
  each : List.Forall₂ (ResolvedAttribute.Mirrors ignored p)
    (stored.filter (¬ ·.IsIgnored ignored p)) resolved

structure ResolvedField.Mirrors (ignored : List Bytes) (p : Pool) (f : MemberInfo)
    (resolved : ResolvedField) : Prop where
  name : f.name p = .ok resolved.name
  type : ∃ descriptor, f.descriptor p = .ok descriptor ∧
    FieldType.parse descriptor = .ok resolved.type
  access : resolved.access = f.access
  attributes : AttributesMirror ignored p f.attributes resolved.attributes

structure ResolvedMethod.Mirrors (ignored : List Bytes) (p : Pool) (m : MemberInfo)
    (resolved : ResolvedMethod) : Prop where
  name : m.name p = .ok resolved.name
  type : ∃ descriptor, m.descriptor p = .ok descriptor ∧
    MethodType.parse descriptor = .ok resolved.type
  access : resolved.access = m.access
  attributes : AttributesMirror ignored p m.attributes resolved.attributes

/-- Everything a class file lists is in the resolved class, in the same order. -/
structure ResolvedClass.Mirrors (ignored : List Bytes) (c : ClassFile) (resolved : ResolvedClass) :
    Prop where
  interfaces : List.Forall₂ (fun i name => c.pool.className i = .ok name) c.interfaces
    resolved.interfaces
  fields : List.Forall₂ (ResolvedField.Mirrors ignored c.pool) c.fields resolved.fields
  methods : List.Forall₂ (ResolvedMethod.Mirrors ignored c.pool) c.methods resolved.methods
  attributes : AttributesMirror ignored c.pool c.attributes resolved.attributes

section

variable {ignored : List Bytes} {p : Pool} {a : Attribute} {b : ResolvedAttribute} {name : Bytes}
  {stored : List Attribute} {resolved : List ResolvedAttribute}

theorem Attribute.isIgnored_iff (hname : a.name p = .ok name) :
    a.IsIgnored ignored p ↔ name ∈ ignored := by
  simp [IsIgnored, hname]

theorem AttributesMirror.nil : AttributesMirror ignored p [] [] := ⟨⟨[], rfl, rfl⟩, .nil⟩

theorem AttributesMirror.passOver (hname : a.name p = .ok name) (hignored : name ∈ ignored)
    (h : AttributesMirror ignored p stored resolved) :
    AttributesMirror ignored p (a :: stored) resolved := by
  obtain ⟨⟨names, hstored, hresolved⟩, heach⟩ := h
  have hpassed : a.IsIgnored ignored p := (Attribute.isIgnored_iff hname).mpr hignored
  refine ⟨⟨name :: names, ?_, ?_⟩, ?_⟩
  · rw [List.mapM_cons, hname, hstored]
    rfl
  · rw [hresolved, List.filter_cons_of_neg (by simpa using hignored)]
  · rwa [List.filter_cons_of_neg (by simpa using hpassed)]

theorem AttributesMirror.keep (hname : a.name p = .ok b.name) (hkept : b.name ∉ ignored)
    (hfirst : b.Mirrors ignored p a) (h : AttributesMirror ignored p stored resolved) :
    AttributesMirror ignored p (a :: stored) (b :: resolved) := by
  obtain ⟨⟨names, hstored, hresolved⟩, heach⟩ := h
  have hpassed : ¬ a.IsIgnored ignored p := mt (Attribute.isIgnored_iff hname).mp hkept
  refine ⟨⟨b.name :: names, ?_, ?_⟩, ?_⟩
  · rw [List.mapM_cons, hname, hstored]
    rfl
  · rw [List.map_cons, hresolved, List.filter_cons_of_pos (by simpa using hkept)]
  · rw [List.filter_cons_of_pos (by simpa using hpassed)]
    exact .cons hfirst heach

end

def Attribute.NestedIn (p : Pool) (b a : Attribute) : Prop :=
  ∃ c, Payload.code p a = .ok c ∧ b ∈ c.attributes

theorem Attribute.nestedIn_wellFounded (p : Pool) : WellFounded (NestedIn p) :=
  (measure fun a : Attribute => a.info.length).wf.mono fun _ _ ⟨_, hc, hb⟩ =>
    Payload.info_lt_of_code hc hb

namespace Resolver

variable {r : Resolver} {p : Pool} {a : Attribute}

theorem instruction_mirrors {i : Bytecode.Instruction} {resolved : ResolvedInstruction}
    (hfits : i.operand.Fits i.opcode) (h : instruction p i = .ok resolved) :
    resolved.Mirrors p i := by
  have hindex := Bytecode.Instruction.isSome_poolIndex? hfits
  unfold instruction at h
  split at h
  · rename_i hnone
    cases h
    exact ⟨rfl, hindex ▸ hnone ▸ rfl, nofun⟩
  · rename_i index hsome
    simp only [Result.bind_ok_iff, Result.mapError_ok_iff, Result.pure_ok_iff] at h
    obtain ⟨ref, href, rfl⟩ := h
    refine ⟨rfl, hindex ▸ hsome ▸ rfl, ?_⟩
    rintro _ ⟨⟩
    exact ⟨index, hsome, href⟩

theorem handler_mirrors {h : ExceptionHandler} {resolved : ResolvedHandler}
    (hok : handler p h = .ok resolved) : resolved.Mirrors p h := by
  unfold handler at hok
  split_ifs at hok with hzero
  · cases hok
    exact ⟨rfl, rfl, rfl, absurd hzero⟩
  · simp only [Result.bind_ok_iff, Result.pure_ok_iff] at hok
    obtain ⟨catchType, hcatch, rfl⟩ := hok
    exact ⟨rfl, rfl, rfl, fun _ => hcatch⟩

theorem name_of_flat (name : Bytes) : Result.OnlyGives (·.name = name) (flat p name a) := by
  -- One alternative after another, in the order in which names are compared.
  refine .ite (fun hname => .bind fun _ => .pure hname.symm) ?_
  refine .ite (fun hname => .bind fun _ => .bind fun _ => .pure hname.symm) ?_
  refine .ite (fun hname => .bind fun _ => .pure hname.symm) ?_
  refine .ite (fun hname => .bind fun _ => .bind fun _ => .pure hname.symm) ?_
  refine .ite (fun hname => .bind fun _ => .bind fun _ => .pure hname.symm) ?_
  refine .ite (fun hname => .bind fun _ => .bind fun _ => .pure hname.symm) ?_
  refine .ite (fun hname => .bind fun _ => .bind fun _ => .pure hname.symm) ?_
  refine .ite (fun hname => .bind fun _ => .bind fun _ => .pure hname.symm) ?_
  refine .ite (fun hname => .bind fun _ => .pure hname.symm) ?_
  refine .ite (fun hname => .bind fun _ => .pure hname.symm) ?_
  exact .throw _

theorem resolveAttribute_ok_cases {found : Option ResolvedAttribute}
    (h : r.resolveAttribute p a = .ok found) : ∃ name, a.name p = .ok name ∧
      (name ∈ r.ignored ∧ found = none ∨ ∃ b, name ∉ r.ignored ∧ found = some b ∧
        b.name = name ∧ (name = AttributeName.code →
          ∃ c, Payload.code p a = .ok c ∧ r.resolveCode p c = .ok b)) := by
  rw [resolveAttribute_eq, Result.bind_ok_iff] at h
  obtain ⟨name, hname, h⟩ := h
  refine ⟨name, hname, ?_⟩
  split_ifs at h with hignored hcode
  · cases h
    exact .inl ⟨hignored, rfl⟩
  · simp only [Result.bind_ok_iff, Result.pure_ok_iff] at h
    obtain ⟨b, ⟨c, hc, hb⟩, rfl⟩ := h
    have hname : b.name = AttributeName.code := by
      simp only [resolveCode, Result.bind_ok_iff, Result.pure_ok_iff] at hb
      obtain ⟨_, _, _, _, _, _, rfl⟩ := hb
      rfl
    exact .inr ⟨b, hignored, rfl, hname.trans hcode.symm, fun _ => ⟨c, hc, hb⟩⟩
  · simp only [Result.bind_ok_iff, Result.pure_ok_iff] at h
    obtain ⟨b, hb, rfl⟩ := h
    exact .inr ⟨b, hignored, rfl, name_of_flat name b hb, fun h => absurd h hcode⟩

theorem resolveAttributes_mirrors {path : List Bytes} {stored : List Attribute}
    {resolved : List ResolvedAttribute}
    (hmirrors : ∀ a ∈ stored, ∀ b, r.resolveAttribute p a = .ok (some b) → b.Mirrors r.ignored p a)
    (h : r.resolveAttributes p path stored = .ok resolved) :
    AttributesMirror r.ignored p stored resolved := by
  induction stored generalizing resolved with
  | nil =>
    cases h
    exact .nil
  | cons a stored ih =>
    obtain ⟨hfirst, hrest⟩ := List.forall_mem_cons.mp hmirrors
    rw [resolveAttributes, each_cons] at h
    simp only [Result.bind_ok_iff, Result.mapError_ok_iff, Result.pure_ok_iff] at h
    obtain ⟨found, hfound, others, hothers, rfl⟩ := h
    obtain ⟨name, hname, ⟨hignored, rfl⟩ | ⟨b, hkept, rfl, rfl, -⟩⟩ :=
      resolveAttribute_ok_cases hfound
    · exact (ih hrest hothers).passOver hname hignored
    · exact (ih hrest hothers).keep hname hkept (hfirst b hfound)

/-- By induction on what is nested in what, so that the attributes inside of code are mirrored
already. -/
theorem resolveAttribute_mirrors {b : ResolvedAttribute}
    (h : r.resolveAttribute p a = .ok (some b)) : b.Mirrors r.ignored p a := by
  induction a using (Attribute.nestedIn_wellFounded p).induction generalizing b with
  | _ a ih =>
    obtain ⟨name, hname, ⟨-, ⟨⟩⟩ | ⟨b, -, ⟨⟩, rfl, hcode⟩⟩ := resolveAttribute_ok_cases h
    by_cases hflat : b.name = AttributeName.code
    · obtain ⟨c, hc, hb⟩ := hcode hflat
      simp only [resolveCode, Result.bind_ok_iff, Result.pure_ok_iff] at hb
      obtain ⟨instructions, hinstructions, handlers, hhandlers, attributes, hattributes, rfl⟩ := hb
      have hfits := (Payload.code_ok_iff.mp hc).2.1.spelled.fits
      have hnested := resolveAttributes_mirrors (fun a ha b hb => ih a ⟨c, hc, ha⟩ hb) hattributes
      refine .code hc ?_ ?_ hnested.names hnested.each
      · have hread := (List.forall₂_and_left _ _).mpr ⟨hfits, Result.mapM_ok_iff.mp hinstructions⟩
        exact hread.imp fun _ _ hi => instruction_mirrors hi.1 hi.2
      · exact (Result.mapM_ok_iff.mp hhandlers).imp fun _ _ => handler_mirrors
    · exact .flat hname hflat

-- ---------------------------------------------------------------------------
-- Classes
-- ---------------------------------------------------------------------------

theorem resolveField_mirrors {f : MemberInfo} {resolved : ResolvedField}
    (h : r.resolveField p f = .ok resolved) : resolved.Mirrors r.ignored p f := by
  simp only [resolveField, Result.bind_ok_iff, Result.mapError_ok_iff, Result.pure_ok_iff] at h
  obtain ⟨name, hname, descriptor, hdescriptor, type, htype, attributes, hattributes, rfl⟩ := h
  exact ⟨hname, ⟨descriptor, hdescriptor, htype⟩, rfl,
    resolveAttributes_mirrors (fun _ _ _ => resolveAttribute_mirrors) hattributes⟩

theorem resolveMethod_mirrors {m : MemberInfo} {resolved : ResolvedMethod}
    (h : r.resolveMethod p m = .ok resolved) : resolved.Mirrors r.ignored p m := by
  simp only [resolveMethod, Result.bind_ok_iff, Result.mapError_ok_iff, Result.pure_ok_iff] at h
  obtain ⟨name, hname, descriptor, hdescriptor, type, htype, attributes, hattributes, rfl⟩ := h
  exact ⟨hname, ⟨descriptor, hdescriptor, htype⟩, rfl,
    resolveAttributes_mirrors (fun _ _ _ => resolveAttribute_mirrors) hattributes⟩

/-- No attribute is inside of itself, however many others lie between, and a class that resolves
mirrors its class file. -/
theorem resolve_mirrors (r : Resolver) (c : ClassFile) :
    WellFounded (Attribute.NestedIn c.pool) ∧
      ∀ out, r.resolve c = .ok out → out.Mirrors r.ignored c := by
  refine ⟨Attribute.nestedIn_wellFounded c.pool, fun out h => ?_⟩
  simp only [resolve, contents, Result.bind_ok_iff, Result.mapError_ok_iff,
    Result.pure_ok_iff] at h
  obtain ⟨name, hname, superName, hsuper, interfaces, hinterfaces, fields, hfields, methods,
    hmethods, attributes, hattributes, rfl⟩ := h
  exact {
    interfaces := Result.mapM_ok_iff.mp hinterfaces
    fields := (Result.mapM_ok_iff.mp hfields).imp fun _ _ => resolveField_mirrors
    methods := (Result.mapM_ok_iff.mp hmethods).imp fun _ _ => resolveMethod_mirrors
    attributes := resolveAttributes_mirrors (fun _ _ _ => resolveAttribute_mirrors) hattributes }

def catching : ClassFile :=
  let inner : Code := {
    maxStack := 0, maxLocals := 0, code := [0xb1], instructions := [], handlers := []
    attributes := [⟨7, [1]⟩, ⟨6, []⟩] }
  let outer : Code := {
    maxStack := 1, maxLocals := 0, code := [0x12, 3, 0x57, 0xb1], instructions := []
    handlers := [⟨0, 2, 3, 3⟩], attributes := [⟨7, []⟩, ⟨1, inner.written⟩] }
  { magic := 0xCAFEBABE, minor := 0, major := 52
    pool := ⟨[none, some (.utf8 AttributeName.code), some (.utf8 (text "A")), some (.classRef 2),
      some (.utf8 (text "f")), some (.utf8 (text "()V")), some (.utf8 AttributeName.deprecated),
      some (.utf8 (text "X"))]⟩
    access := 0x21, thisClass := 3, superClass := 0, interfaces := [3], fields := []
    methods := [{
      access := 1, nameIndex := 4, descriptorIndex := 5, attributes := [⟨1, outer.written⟩] }]
    attributes := [⟨6, []⟩, ⟨7, [2]⟩] }

theorem resolve_mirrors_catching : ∃ out, resolve ⟨[text "X"]⟩ catching = .ok out ∧
    out.attributes.map (·.name) = [AttributeName.deprecated] ∧
    out.Mirrors [text "X"] catching := by
  have hnames : (resolve ⟨[text "X"]⟩ catching).toOption.map (·.attributes.map (·.name)) =
      some [AttributeName.deprecated] := by decide +kernel
  cases h : resolve ⟨[text "X"]⟩ catching with
  | error e =>
    rw [h] at hnames
    cases hnames
  | ok out =>
    rw [h] at hnames
    exact ⟨out, rfl, Option.some.inj hnames, (resolve_mirrors ⟨[text "X"]⟩ catching).2 out h⟩

end Resolver
end ClassHeader
