import ClassHeader.Graph.Collect
import ClassHeader.Proofs.Bytecode.Confined
import ClassHeader.Proofs.ClassFile.Parts
import ClassHeader.Proofs.ClassFile.Tables
import ClassHeader.Proofs.Resolve.Valid
import ClassHeader.Resolve.Resolver

/-!
# Faults of class files

Looking at a class file fails with faults of known kinds. Reading, looking up, parsing
and resolving leave it open which class is at fault; whoever asked for the class adds
its name, and an error that has no fault at all becomes the cause of one.
-/

namespace ClassHeader

open Result

namespace Error

/-- The outermost fault, if there is one, is of a known kind and names no class. -/
def Nameless (e : Error) : Prop := ∀ f ∈ e.fault?, f.Nameless

theorem nameless_fault {f : Fault} (h : f.Nameless) : Nameless (.fault f) := by
  rintro _ ⟨⟩
  exact h

theorem nameless_causedBy {f : Fault} {cause : Error} (h : f.Nameless) :
    Nameless (.causedBy f cause) := by
  rintro _ ⟨⟩
  exact h

theorem Nameless.withPath {e : Error} (h : e.Nameless) (path : List Bytes) :
    (e.withPath path).Nameless := by
  have hplaced : ∀ f : Fault, f.Nameless →
      (if f.path = [] then { f with path } else f).Nameless := by
    intro f hf
    split_ifs
    · exact hf
    · exact hf
  cases e with
  | fault f => exact nameless_fault (hplaced f (h f rfl))
  | causedBy f cause => exact nameless_causedBy (hplaced f (h f rfl))
  | plain | wrapped | parse => exact h

end Error

open Error

-- ---------------------------------------------------------------------------
-- Reading
-- ---------------------------------------------------------------------------

namespace ClassFile

open Binary Read

theorem readPart_onlyFails {α : Type} (part : Bytes) (step : Read α) :
    Read.OnlyFails Nameless (readPart part step) := by
  refine .mapError (fun place e => ?_) step
  exact nameless_causedBy ⟨rfl, nofun⟩

theorem Composed.onlyFails {α : Type} {step : Read α} (h : Composed step) :
    Read.OnlyFails Nameless step := by
  induction h with
  | pure a => exact .pure a
  | fault fault h => exact .throw (nameless_fault h)
  | position => exact .position
  | part part width value => exact readPart_onlyFails part _
  | done =>
    intro r e r' h
    unfold readEnd at h
    split at h
    · cases h
    · cases h
      exact nameless_fault ⟨rfl, nofun⟩
  | bind _ _ hstep hnext => exact .bind hstep hnext

theorem decode_onlyFails (data : Bytes) : OnlyFails Nameless (decode data) :=
  read_composed.onlyFails.runOn data .memory

end ClassFile

-- ---------------------------------------------------------------------------
-- Looking up
-- ---------------------------------------------------------------------------

theorem Descriptor.nameless_malformed (whole detail : Bytes) :
    Nameless (Descriptor.malformed whole detail) :=
  nameless_fault ⟨rfl, nofun⟩

namespace Pool

variable (p : Pool) (i : UInt16)

theorem get_onlyFails : OnlyFails Nameless (p.get i) := by
  unfold Pool.get
  split_ifs
  · exact .throw (nameless_fault ⟨rfl, nofun⟩)
  · split
    · exact .throw (nameless_fault ⟨rfl, nofun⟩)
    · exact .throw (nameless_fault ⟨rfl, nofun⟩)
    · exact .pure _

theorem mismatch_onlyFails {α : Type} (want : Tag) (got : Constant) :
    OnlyFails Nameless (throw (mismatch i want got) : Result α) :=
  .throw (nameless_fault ⟨rfl, nofun⟩)

theorem utf8_onlyFails : OnlyFails Nameless (p.utf8 i) := by
  refine .bind (p.get_onlyFails i) fun c => ?_
  split
  · exact .pure _
  · exact mismatch_onlyFails i _ _

theorem className_onlyFails : OnlyFails Nameless (p.className i) := by
  refine .bind (p.get_onlyFails i) fun c => ?_
  split
  · exact p.utf8_onlyFails _
  · exact mismatch_onlyFails i _ _

theorem nameAndType_onlyFails : OnlyFails Nameless (p.nameAndType i) := by
  refine .bind (p.get_onlyFails i) fun c => ?_
  split
  · exact .bind (p.utf8_onlyFails _) fun _ => .bind (p.utf8_onlyFails _) fun _ => .pure _
  · exact mismatch_onlyFails i _ _

theorem member_onlyFails : OnlyFails Nameless (p.member i) := by
  refine .bind (p.get_onlyFails i) fun c => ?_
  split
  · exact .bind (p.className_onlyFails _) fun _ => .bind (p.nameAndType_onlyFails _) fun _ =>
      .pure _
  · exact mismatch_onlyFails i _ _

theorem literal?_onlyFails (c : Constant) : OnlyFails Nameless (c.literal? p) := by
  cases c with
  | string index => exact .bind (p.utf8_onlyFails index) fun _ => .pure _
  | _ => exact .pure _

theorem resolve_onlyFails : OnlyFails Nameless (p.resolve i) := by
  have hparse := FieldType.ofClassName_onlyFails Descriptor.nameless_malformed
  have hmethod := MethodType.parse_onlyFails Descriptor.nameless_malformed
  refine .bind (p.get_onlyFails i) fun c => .bind (p.literal?_onlyFails c) fun value => ?_
  cases value with
  | some value => exact .pure _
  | none =>
    dsimp only
    split
    · exact .bind (p.utf8_onlyFails _) fun name => .bind (hparse name) fun _ => .pure _
    · exact .bind (p.member_onlyFails i) fun _ => .pure _
    · exact .bind (p.member_onlyFails i) fun _ => .pure _
    · exact .bind (p.member_onlyFails i) fun _ => .pure _
    · exact .bind (p.utf8_onlyFails _) fun text => .bind (hmethod text) fun _ => .pure _
    · exact .bind (p.get_onlyFails _) fun _ => .bind (p.member_onlyFails _) fun _ => .pure _
    · exact .bind (p.nameAndType_onlyFails _) fun _ => .pure _
    · exact .bind (p.nameAndType_onlyFails _) fun _ => .pure _
    · exact .bind (p.utf8_onlyFails _) fun _ => .pure _
    · exact .bind (p.utf8_onlyFails _) fun _ => .pure _
    · exact .throw (nameless_fault ⟨rfl, nofun⟩)

theorem checkedAt_onlyFails {α : Type} (place : Bytes) (lookup : Result α) :
    OnlyFails Nameless (checkedAt place lookup) := by
  cases lookup with
  | ok a => exact .pure ()
  | error e => exact .throw (nameless_causedBy ⟨rfl, nofun⟩)

theorem expectTag_onlyFails (place : Bytes) (want : List Tag) :
    OnlyFails Nameless (p.expectTag place i want) := by
  unfold expectTag
  split
  · exact .throw (nameless_causedBy ⟨rfl, nofun⟩)
  · exact .ite (.pure ()) (.throw (nameless_fault ⟨rfl, nofun⟩))

end Pool

namespace ClassFile

theorem validateAttributes_onlyFails (p : Pool) (place : Bytes) (attributes : List Attribute) :
    OnlyFails Nameless (validateAttributes p place attributes) :=
  .forM (fun _ => Pool.checkedAt_onlyFails _ _) _

theorem validateMembers_onlyFails (p : Pool) (part : Bytes) (members : List MemberInfo) :
    OnlyFails Nameless (validateMembers p part members) :=
  .forM (fun _ => .bind (Pool.checkedAt_onlyFails _ _) fun _ =>
    .bind (Pool.checkedAt_onlyFails _ _) fun _ => validateAttributes_onlyFails p _ _) _

theorem validate_onlyFails (c : ClassFile) : OnlyFails Nameless c.validate := by
  have hindices : OnlyFails Nameless (validateIndices c) := by
    refine .bind (Pool.checkedAt_onlyFails _ _) fun _ => ?_
    have hinterfaces : OnlyFails Nameless (c.interfaces.zipIdx.forM fun entry =>
        Pool.checkedAt (element (text "interfaces") entry.2) (c.pool.className entry.1)) :=
      .forM (fun _ => Pool.checkedAt_onlyFails _ _) _
    dsimp only
    split_ifs
    · exact .bind (Pool.checkedAt_onlyFails _ _) fun _ => hinterfaces
    · exact hinterfaces
  have hpool : OnlyFails Nameless (validatePool c.pool) :=
    .forM (fun _ => .forM (fun _ => c.pool.expectTag_onlyFails _ _ _) _) _
  exact .bind hpool fun _ => .bind hindices fun _ =>
    .bind (validateMembers_onlyFails _ _ _) fun _ =>
      .bind (validateMembers_onlyFails _ _ _) fun _ => validateAttributes_onlyFails _ _ _

theorem decodeValid_onlyFails (data : Bytes) : OnlyFails Nameless (decodeValid data) :=
  .bind (decode_onlyFails data) fun c => .bind c.validate_onlyFails fun _ => .pure c

theorem superName_onlyFails (c : ClassFile) : OnlyFails Nameless c.superName :=
  .ite (c.pool.className_onlyFails _) (.pure _)

theorem interfaceNames_onlyFails (c : ClassFile) : OnlyFails Nameless c.interfaceNames :=
  .mapM c.pool.className_onlyFails _

theorem structuralNames_onlyFails (c : ClassFile) : OnlyFails Nameless c.structuralNames := by
  have hfield : ∀ f : MemberInfo, OnlyFails Nameless (do
      return (← FieldType.parse (← f.descriptor c.pool)).className?) := fun f =>
    .bind (c.pool.utf8_onlyFails _) fun s =>
      .bind (FieldType.parse_onlyFails Descriptor.nameless_malformed s) fun _ => .pure _
  exact .bind c.superName_onlyFails fun _ => .bind c.interfaceNames_onlyFails fun _ =>
    .bind (.mapM hfield _) fun _ => .pure _

end ClassFile

-- ---------------------------------------------------------------------------
-- Payloads
-- ---------------------------------------------------------------------------

theorem Bytecode.Refused.nameless (e : Error) (h : Refused e) : Nameless e := by
  obtain ⟨f, hfault, -, hkind, hname⟩ := h
  intro f' hf'
  cases hfault.symm.trans hf'
  refine ⟨hname, ?_⟩
  rcases hkind with hkind | hkind <;> rw [hkind] <;> exact nofun

namespace Payload

open Binary Read

variable (p : Pool) (a : Attribute)

theorem checkName_onlyFails (want : Bytes) : Result.OnlyFails Nameless (checkName p a want) :=
  .bind (p.utf8_onlyFails _) fun _ => .ensure (nameless_fault ⟨rfl, nofun⟩)

theorem Missized.nameless (e : Error) (h : Missized e) : Nameless e := by
  obtain ⟨f, hfault, -, hkind, hname⟩ := h
  intro f' hf'
  cases hfault.symm.trans hf'
  refine ⟨hname, ?_⟩
  rw [hkind]
  exact nofun

theorem rows_nameless {α : Type} (format : RowFormat α) (name : Bytes) :
    Result.OnlyFails Nameless (rows format name p a) :=
  rows_onlyFails Missized.nameless (checkName_onlyFails p a name) format

theorem bootstrapMethods_nameless : Result.OnlyFails Nameless (bootstrapMethods p a) :=
  bootstrapMethods_onlyFails Missized.nameless (checkName_onlyFails p a _)

theorem index_onlyFails (name : Bytes) : Result.OnlyFails Nameless (index name p a) :=
  .bind (checkName_onlyFails p a name) fun _ =>
    .bind (checkSize_onlyFails Missized.nameless _ _ _) fun _ =>
      (within_onlyFails Missized.nameless name a.info.length Read.u2).runOn _ _

theorem marker_onlyFails (name : Bytes) : Result.OnlyFails Nameless (marker name p a) :=
  .bind (checkName_onlyFails p a name) fun _ => checkSize_onlyFails Missized.nameless _ _ _

theorem code_onlyFails : Result.OnlyFails Nameless (code p a) := by
  have hwithin {α : Type} (name : Bytes) (size : Nat) (step : Read α) :
      Read.OnlyFails Nameless (within name size step) :=
    within_onlyFails Missized.nameless name size step
  have hcode : Read.OnlyFails Nameless (readCode a.info) := by
    refine .bind (hwithin _ _ _) fun _ => .bind (hwithin _ _ _) fun _ => ?_
    refine .bind (hwithin _ _ _) fun _ => .bind .position fun _ => ?_
    refine .bind (.ensure (nameless_fault ⟨rfl, nofun⟩)) fun _ => ?_
    refine .bind (.ensure (nameless_fault ⟨rfl, nofun⟩)) fun _ => ?_
    refine .bind ((Bytecode.decodeFrom_onlyFails _).mono Bytecode.Refused.nameless) fun _ => ?_
    refine .bind (hwithin _ _ _) fun _ => ?_
    refine .bind (.times (hwithin _ _ _) _) fun _ => ?_
    exact .bind (ClassFile.readAttributes_composed _).onlyFails fun _ =>
      .bind (finish_onlyFails Missized.nameless _ _) fun _ => .pure _
  exact .bind (checkName_onlyFails p a _) fun _ => hcode.runOn _ _

end Payload

-- ---------------------------------------------------------------------------
-- Resolving
-- ---------------------------------------------------------------------------

namespace Resolver

variable (r : Resolver) (p : Pool) (a : Attribute)

theorem instruction_onlyFails (i : Bytecode.Instruction) :
    OnlyFails Nameless (instruction p i) := by
  unfold instruction
  split
  · exact .pure _
  · exact .bind (.mapError (p.resolve_onlyFails _) fun _ h => h.withPath _) fun _ => .pure _

theorem handler_onlyFails (h : ExceptionHandler) : OnlyFails Nameless (handler p h) :=
  .ite (.pure _) (.bind (p.className_onlyFails _) fun _ => .pure _)

theorem constantValue_onlyFails : OnlyFails Nameless (constantValue p a) := by
  refine .bind (Payload.index_onlyFails p a _) fun i => .bind (p.get_onlyFails i) fun c => ?_
  refine .bind (p.literal?_onlyFails c) fun value => ?_
  cases value with
  | some value => exact .pure _
  | none => exact .throw (nameless_fault ⟨rfl, nofun⟩)

theorem localVariable_onlyFails (row : LocalVariable) : OnlyFails Nameless (localVariable p row) :=
  .bind (p.utf8_onlyFails _) fun _ => .bind (p.utf8_onlyFails _) fun s =>
    .bind (FieldType.parse_onlyFails Descriptor.nameless_malformed s) fun _ => .pure _

theorem innerClass_onlyFails (row : InnerClass) : OnlyFails Nameless (innerClass p row) := by
  refine .bind (p.className_onlyFails _) fun inner => ?_
  have hname : ∀ outer : Bytes, OnlyFails Nameless (do
      let name ← if row.name = 0 then pure [] else p.utf8 row.name
      return { inner, outer, name, access := row.access : ResolvedInnerClass }) := fun outer =>
    .ite (.pure _) (.bind (p.utf8_onlyFails _) fun _ => .pure _)
  exact .ite (hname []) (.bind (p.className_onlyFails _) hname)

theorem bootstrapMethod_onlyFails (m : BootstrapMethod) :
    OnlyFails Nameless (bootstrapMethod p m) := by
  refine .bind (p.resolve_onlyFails _) fun ref => ?_
  split
  · exact .bind (.mapM p.resolve_onlyFails _) fun _ => .pure _
  · exact .throw (nameless_fault ⟨rfl, nofun⟩)

theorem each_onlyFails {α : Type} (path : List Bytes)
    {resolve : α → Result (Option ResolvedAttribute)} (h : ∀ a, OnlyFails Nameless (resolve a))
    (attributes : List α) : OnlyFails Nameless (each path resolve attributes) :=
  .bind (.mapM (fun a => .mapError (h a) fun _ he => he.withPath _) _) fun _ => .pure _

theorem flat_onlyFails (name : Bytes) : OnlyFails Nameless (flat p name a) := by
  have hindex := Payload.index_onlyFails p a name
  -- One alternative after another, in the order in which names are compared.
  refine .ite (.bind (Payload.rows_nameless p a _ _) fun _ => .pure _) ?_
  refine .ite (.bind hindex fun i => .bind (p.utf8_onlyFails i) fun _ => .pure _) ?_
  refine .ite (.bind (constantValue_onlyFails p a) fun _ => .pure _) ?_
  refine .ite (.bind (Payload.rows_nameless p a _ _) fun _ =>
    .bind (.mapM (localVariable_onlyFails p) _) fun _ => .pure _) ?_
  refine .ite (.bind (Payload.rows_nameless p a _ _) fun _ =>
    .bind (.mapM p.className_onlyFails _) fun _ => .pure _) ?_
  refine .ite (.bind hindex fun i => .bind (p.utf8_onlyFails i) fun _ => .pure _) ?_
  refine .ite (.bind (Payload.rows_nameless p a _ _) fun _ =>
    .bind (.mapM (innerClass_onlyFails p) _) fun _ => .pure _) ?_
  refine .ite (.bind (Payload.bootstrapMethods_nameless p a) fun _ =>
    .bind (.mapM (bootstrapMethod_onlyFails p) _) fun _ => .pure _) ?_
  refine .ite (.bind (Payload.marker_onlyFails p a name) fun _ => .pure _) ?_
  refine .ite (.bind (Payload.marker_onlyFails p a name) fun _ => .pure _) ?_
  exact .throw (nameless_fault ⟨rfl, nofun⟩)

theorem resolveAttribute_onlyFails : OnlyFails Nameless (r.resolveAttribute p a) := by
  induction hlength : a.info.length using Nat.strongRecOn generalizing a with
  | ind length ih =>
    rw [resolveAttribute]
    refine .bind (p.utf8_onlyFails _) fun name => .ite (.pure _) (.ite ?_ ?_)
    · split
      · rename_i e he
        exact .throw (Payload.code_onlyFails p a e he)
      · rename_i c hc
        refine .bind (.mapM (instruction_onlyFails p) _) fun _ => ?_
        refine .bind (.mapM (handler_onlyFails p) _) fun _ => ?_
        -- Nested attributes are shorter than the code that holds them.
        have hnested : ∀ b : { b // b ∈ c.attributes },
            OnlyFails Nameless (r.resolveAttribute p b.1) := fun b =>
          ih _ (hlength ▸ Payload.info_lt_of_code hc b.2) b.1 rfl
        exact .bind (each_onlyFails _ hnested _) fun _ => .pure _
    · exact .bind (flat_onlyFails p a name) fun _ => .pure _

theorem resolveField_onlyFails (f : MemberInfo) : OnlyFails Nameless (r.resolveField p f) := by
  have hparse := FieldType.parse_onlyFails Descriptor.nameless_malformed
  exact .bind (p.utf8_onlyFails _) fun _ => .bind (p.utf8_onlyFails _) fun s =>
    .bind (.mapError (hparse s) fun _ h => h.withPath _) fun _ =>
      .bind (each_onlyFails _ (r.resolveAttribute_onlyFails p) _) fun _ => .pure _

theorem resolveMethod_onlyFails (m : MemberInfo) : OnlyFails Nameless (r.resolveMethod p m) := by
  have hparse := MethodType.parse_onlyFails Descriptor.nameless_malformed
  exact .bind (p.utf8_onlyFails _) fun _ => .bind (p.utf8_onlyFails _) fun s =>
    .bind (.mapError (hparse s) fun _ h => h.withPath _) fun _ =>
      .bind (each_onlyFails _ (r.resolveAttribute_onlyFails p) _) fun _ => .pure _

theorem contents_onlyFails (c : ClassFile) (name : Bytes) :
    OnlyFails Nameless (r.contents c name) :=
  .bind c.superName_onlyFails fun _ => .bind c.interfaceNames_onlyFails fun _ =>
    .bind (.mapM (r.resolveField_onlyFails c.pool) _) fun _ =>
      .bind (.mapM (r.resolveMethod_onlyFails c.pool) _) fun _ =>
        .bind (each_onlyFails _ (r.resolveAttribute_onlyFails c.pool) _) fun _ => .pure _

end Resolver

-- ---------------------------------------------------------------------------
-- Classes at fault
-- ---------------------------------------------------------------------------

namespace Error

variable {allowed : Kind → Prop} {name : Bytes} {e : Error}

/-- The fault that an error is, and not just quotes or stands in front of. -/
def outside? : Error → Option Fault
  | .fault f | .causedBy f _ => some f
  | .plain _ | .wrapped _ _ | .parse _ _ _ => none

/-- The outermost fault, if there is one, is of an allowed kind and names this class or none. -/
def Fits (allowed : Kind → Prop) (name : Bytes) (e : Error) : Prop :=
  ∀ f ∈ e.fault?, allowed f.kind ∧ (f.className = [] ∨ f.className = name)

/-- The same of an error that is a fault itself; one that only quotes a fault may be any. -/
def FitsOutside (allowed : Kind → Prop) (name : Bytes) (e : Error) : Prop :=
  ∀ f ∈ e.outside?, allowed f.kind ∧ (f.className = [] ∨ f.className = name)

def LaidOn (allowed : Kind → Prop) (name : Bytes) (e : Error) : Prop :=
  ∃ f, e.fault? = some f ∧ allowed f.kind ∧ f.className = name

theorem fault?_of_outside? {f : Fault} (h : e.outside? = some f) : e.fault? = some f := by
  cases e with
  | fault | causedBy => exact h
  | plain | wrapped | parse => cases h

theorem Fits.outside (h : e.Fits allowed name) : e.FitsOutside allowed name :=
  fun f hf => h f (fault?_of_outside? hf)

theorem LaidOn.fits (h : e.LaidOn allowed name) : e.Fits allowed name := by
  obtain ⟨f, hf, hkind, hname⟩ := h
  intro f' hf'
  cases hf.symm.trans hf'
  exact ⟨hkind, .inr hname⟩

theorem fault?_mapFault (change : Fault → Fault) (e : Error) :
    (e.mapFault change).fault? = e.fault?.map change := by
  induction e with
  | plain | fault | causedBy => rfl
  | wrapped _ cause ih => exact ih
  | parse _ _ cause ih => exact ih

/-- A class is named where none was named before, in a fault that is made if there is none. -/
theorem fault?_withClass (phase : Phase) (name : Bytes) (e : Error) :
    (e.withClass phase name).fault? = some (match e.fault? with
      | some f => if f.className = [] then { f with className := name } else f
      | none => { phase, kind := .invalidData, className := name }) := by
  rw [withClass]
  cases h : e.fault? with
  | some f => rw [fault?_mapFault, h, Option.map_some]
  | none => rfl

section

variable (hallowed : ∀ kind : Kind, kind.category ≠ .unclassified → allowed kind)

include hallowed

theorem Nameless.fits (h : e.Nameless) (name : Bytes) : e.Fits allowed name :=
  fun f hf => ⟨hallowed _ (h f hf).2, .inl (h f hf).1⟩

theorem Fits.withClass (h : e.Fits allowed name) (phase : Phase) :
    (e.withClass phase name).LaidOn allowed name := by
  refine ⟨_, fault?_withClass phase name e, ?_⟩
  cases hfault : e.fault? with
  | none => exact ⟨hallowed _ nofun, rfl⟩
  | some f =>
    obtain ⟨hkind, hname⟩ := h f hfault
    dsimp only
    split_ifs with hunnamed
    · exact ⟨hkind, rfl⟩
    · exact ⟨hkind, hname.resolve_left hunnamed⟩

/-- Not being loaded is laid on a class in any case, if not by the error itself then by the fault
around it. -/
theorem FitsOutside.notLoaded (h : e.FitsOutside allowed name) :
    (Collect.notLoaded name e).LaidOn allowed name := by
  cases e with
  | fault f =>
    have hfits : Fits allowed name (.fault f) := h
    exact hfits.withClass hallowed .load
  | causedBy f cause =>
    have hfits : Fits allowed name (.causedBy f cause) := h
    exact hfits.withClass hallowed .load
  | plain | wrapped | parse => exact ⟨_, rfl, hallowed _ nofun, rfl⟩

end

end Error

section

variable {allowed : Kind → Prop} {c : ClassFile} {name : Bytes}
  (hallowed : ∀ kind : Kind, kind.category ≠ .unclassified → allowed kind)

include hallowed

theorem ClassFile.dependencyKinds_onlyFails (hname : c.name = .ok name) (policy : EdgePolicy) :
    OnlyFails (Fits allowed name) (c.dependencyKinds policy) := by
  have hfits : ∀ e : Error, e.Nameless → e.Fits allowed name := fun e he => he.fits hallowed name
  have hconstants : OnlyFails (Fits allowed name) (c.classConstants name) := by
    refine .mapM (fun index => .bind (fun e he => hfits e (c.pool.utf8_onlyFails _ e he)) ?_) _
    intro s
    refine .mapError (FieldType.ofClassName_onlyFails Descriptor.nameless_malformed s) ?_
    exact fun e he => ((hfits e he).withClass hallowed .collect).fits
  have hdependencies : OnlyFails (Fits allowed name) c.dependencies := by
    rw [ClassFile.dependencies, hname, ok_bind]
    exact .bind hconstants fun _ => .pure _
  refine .bind hdependencies fun names => ?_
  cases policy with
  | strict => exact .pure _
  | structural =>
    exact .bind (fun e he => hfits e (c.structuralNames_onlyFails e he)) fun _ => .pure _

theorem Resolver.resolve_onlyFails (r : Resolver) (hname : c.name = .ok name) :
    OnlyFails (LaidOn allowed name) (r.resolve c) := by
  rw [Resolver.resolve, hname]
  exact .mapError (r.contents_onlyFails c name) fun e he =>
    (he.fits hallowed name).withClass hallowed .resolve

end

end ClassHeader
