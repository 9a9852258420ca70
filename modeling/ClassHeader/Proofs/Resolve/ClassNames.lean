import ClassHeader.Resolve.Resolver
import ClassHeader.Proofs.Result

/-!
# Class names of resolved classes

Every class that a resolved class names, at any depth of its attributes, is named
by a class constant of the file. Names of classes inside descriptors are no such
names: they come from the text of a type.
-/

namespace ClassHeader

-- ---------------------------------------------------------------------------
-- Names that come from class constants
-- ---------------------------------------------------------------------------

/-- The attribute names a class through a class constant. An empty name stands for none. -/
inductive ResolvedAttribute.Carries : ResolvedAttribute → Bytes → Prop
  | instruction {body : ResolvedCode} {i : ResolvedInstruction} {ref : Ref} {name : Bytes}
    (hi : i ∈ body.instructions) (href : i.ref = some ref) (hname : ref.className? = some name) :
    Carries (.code body) name
  | handler {body : ResolvedCode} {h : ResolvedHandler} (hh : h ∈ body.handlers)
    (hcatch : h.catchType ≠ []) : Carries (.code body) h.catchType
  | nested {body : ResolvedCode} {a : ResolvedAttribute} {name : Bytes}
    (ha : a ∈ body.attributes) (hname : Carries a name) : Carries (.code body) name
  | exception {classes : List Bytes} {name : Bytes} (hname : name ∈ classes) :
    Carries (.exceptions classes) name
  | inner {rows : List ResolvedInnerClass} {row : ResolvedInnerClass} (hrow : row ∈ rows) :
    Carries (.innerClasses rows) row.inner
  | outer {rows : List ResolvedInnerClass} {row : ResolvedInnerClass} (hrow : row ∈ rows)
    (houter : row.outer ≠ []) : Carries (.innerClasses rows) row.outer
  | bootstrap {rows : List ResolvedBootstrap} {row : ResolvedBootstrap} (hrow : row ∈ rows) :
    Carries (.bootstrapMethods rows) row.member.owner
  | argument {rows : List ResolvedBootstrap} {row : ResolvedBootstrap} {ref : Ref} {name : Bytes}
    (hrow : row ∈ rows) (href : ref ∈ row.arguments) (hname : ref.className? = some name) :
    Carries (.bootstrapMethods rows) name

inductive ResolvedClass.Carries (r : ResolvedClass) : Bytes → Prop
  | superName (h : r.superName ≠ []) : Carries r r.superName
  | interface {name : Bytes} (h : name ∈ r.interfaces) : Carries r name
  | field {f : ResolvedField} {a : ResolvedAttribute} {name : Bytes} (hf : f ∈ r.fields)
    (ha : a ∈ f.attributes) (hname : a.Carries name) : Carries r name
  | method {m : ResolvedMethod} {a : ResolvedAttribute} {name : Bytes} (hm : m ∈ r.methods)
    (ha : a ∈ m.attributes) (hname : a.Carries name) : Carries r name
  | own {a : ResolvedAttribute} {name : Bytes} (ha : a ∈ r.attributes)
    (hname : a.Carries name) : Carries r name

namespace Pool

variable {p : Pool} {i : UInt16} {name : Bytes}

def NamesClass (p : Pool) (name : Bytes) : Prop := ∃ i, p.className i = .ok name

theorem className_of_get {index : UInt16} (hget : p.get i = .ok (.classRef index))
    (hname : p.utf8 index = .ok name) : p.className i = .ok name := by
  simp only [className, hget, hname, bind, Except.bind]

theorem namesClass_of_member {m : Member} (h : p.member i = .ok m) : p.NamesClass m.owner := by
  simp only [member, Result.bind_ok_iff] at h
  obtain ⟨c, _, h⟩ := h
  split at h
  · simp only [Result.bind_ok_iff, Result.pure_ok_iff] at h
    obtain ⟨owner, howner, _, _, rfl⟩ := h
    exact ⟨_, howner⟩
  · cases h

theorem namesClass_of_resolve {ref : Ref} (h : p.resolve i = .ok ref)
    (hname : ref.className? = some name) : p.NamesClass name := by
  simp only [resolve, Result.bind_ok_iff] at h
  obtain ⟨c, hget, literal, _, h⟩ := h
  cases literal with
  | some value =>
    cases h
    cases hname
  | none =>
    cases c with
    | classRef index =>
      simp only [Result.bind_ok_iff, Result.pure_ok_iff] at h
      obtain ⟨found, hfound, type, _, rfl⟩ := h
      cases hname
      exact ⟨i, className_of_get hget hfound⟩
    | fieldRef owner nat | methodRef owner nat | interfaceMethodRef owner nat =>
      simp only [Result.bind_ok_iff, Result.pure_ok_iff] at h
      obtain ⟨m, hm, rfl⟩ := h
      cases hname
      exact namesClass_of_member hm
    | methodHandle kind reference =>
      simp only [Result.bind_ok_iff, Result.pure_ok_iff] at h
      obtain ⟨target, _, m, hm, rfl⟩ := h
      cases hname
      exact namesClass_of_member hm
    | methodType index =>
      simp only [Result.bind_ok_iff, Result.pure_ok_iff] at h
      obtain ⟨_, _, _, _, rfl⟩ := h
      cases hname
    | dynamic | invokeDynamic | moduleRef | packageRef =>
      simp only [Result.bind_ok_iff, Result.pure_ok_iff] at h
      obtain ⟨_, _, rfl⟩ := h
      cases hname
    | _ => cases h

end Pool

namespace Resolver

variable {r : Resolver} {p : Pool} {a : Attribute} {name : Bytes}

theorem mem_each {α : Type} {path : List Bytes} {resolve : α → Result (Option ResolvedAttribute)}
    {attributes : List α} {resolved : List ResolvedAttribute}
    (h : each path resolve attributes = .ok resolved) {b : ResolvedAttribute} (hb : b ∈ resolved) :
    ∃ a ∈ attributes, resolve a = .ok (some b) := by
  simp only [each, Result.bind_ok_iff, Result.pure_ok_iff] at h
  obtain ⟨found, hfound, rfl⟩ := h
  obtain ⟨b', hb', hsome⟩ := List.mem_filterMap.mp hb
  cases hsome
  obtain ⟨a, ha, hresolve⟩ := Result.exists_of_mem_mapM hfound hb'
  exact ⟨a, ha, Result.mapError_ok_iff.mp hresolve⟩

theorem namesClass_of_instruction {i : Bytecode.Instruction} {resolved : ResolvedInstruction}
    {ref : Ref} (h : instruction p i = .ok resolved) (href : resolved.ref = some ref)
    (hname : ref.className? = some name) : p.NamesClass name := by
  unfold instruction at h
  split at h
  · cases h
    cases href
  · simp only [Result.bind_ok_iff, Result.mapError_ok_iff, Result.pure_ok_iff] at h
    obtain ⟨found, hfound, rfl⟩ := h
    cases href
    exact Pool.namesClass_of_resolve hfound hname

theorem namesClass_of_handler {h : ExceptionHandler} {resolved : ResolvedHandler}
    (hok : handler p h = .ok resolved) (hcatch : resolved.catchType ≠ []) :
    p.NamesClass resolved.catchType := by
  unfold handler at hok
  split_ifs at hok
  · cases hok
    exact absurd rfl hcatch
  · simp only [Result.bind_ok_iff, Result.pure_ok_iff] at hok
    obtain ⟨catchType, hfound, rfl⟩ := hok
    exact ⟨_, hfound⟩

theorem namesClass_of_innerClass {row : InnerClass} {resolved : ResolvedInnerClass}
    (h : innerClass p row = .ok resolved) :
    p.NamesClass resolved.inner ∧ (resolved.outer ≠ [] → p.NamesClass resolved.outer) := by
  rw [innerClass, Result.bind_ok_iff] at h
  obtain ⟨inner, hinner, h⟩ := h
  -- Either index may be zero, and then there is no name behind it.
  split_ifs at h
  all_goals simp only [pure_bind, Result.bind_ok_iff, Result.pure_ok_iff] at h
  · obtain rfl := h
    exact ⟨⟨_, hinner⟩, fun hne => absurd rfl hne⟩
  · obtain ⟨outer, houter, rfl⟩ := h
    exact ⟨⟨_, hinner⟩, fun _ => ⟨_, houter⟩⟩
  · obtain ⟨_, _, rfl⟩ := h
    exact ⟨⟨_, hinner⟩, fun hne => absurd rfl hne⟩
  · obtain ⟨outer, houter, _, _, rfl⟩ := h
    exact ⟨⟨_, hinner⟩, fun _ => ⟨_, houter⟩⟩

theorem namesClass_of_bootstrapMethod {m : BootstrapMethod} {resolved : ResolvedBootstrap}
    (h : bootstrapMethod p m = .ok resolved) :
    p.NamesClass resolved.member.owner ∧
      ∀ ref ∈ resolved.arguments, ∀ name, ref.className? = some name → p.NamesClass name := by
  simp only [bootstrapMethod, Result.bind_ok_iff] at h
  obtain ⟨handle, hhandle, h⟩ := h
  split at h
  · simp only [Result.bind_ok_iff, Result.pure_ok_iff] at h
    obtain ⟨arguments, harguments, rfl⟩ := h
    refine ⟨Pool.namesClass_of_resolve hhandle rfl, fun ref href name hname => ?_⟩
    obtain ⟨index, _, hindex⟩ := Result.exists_of_mem_mapM harguments href
    exact Pool.namesClass_of_resolve hindex hname
  · cases h

-- ---------------------------------------------------------------------------
-- Attributes
-- ---------------------------------------------------------------------------

theorem resolveAttribute_ok {resolved : ResolvedAttribute}
    (h : r.resolveAttribute p a = .ok (some resolved)) :
    (∃ c body, Payload.code p a = .ok c ∧ resolved = .code body ∧
      c.instructions.mapM (instruction p) = .ok body.instructions ∧
      c.handlers.mapM (handler p) = .ok body.handlers ∧
      ∀ b ∈ body.attributes, ∃ nested ∈ c.attributes, r.resolveAttribute p nested = .ok (some b)) ∨
      ∃ name, flat p name a = .ok resolved := by
  rw [resolveAttribute, Result.bind_ok_iff] at h
  obtain ⟨name, _, h⟩ := h
  split_ifs at h
  · cases h
  · split at h
    · cases h
    · rename_i c hc
      simp only [Result.bind_ok_iff, Result.pure_ok_iff] at h
      obtain ⟨instructions, hinstructions, handlers, hhandlers, attributes, hattributes, h⟩ := h
      cases h
      refine .inl ⟨c, _, hc, rfl, hinstructions, hhandlers, fun b hb => ?_⟩
      obtain ⟨nested, _, hnested⟩ := mem_each hattributes hb
      exact ⟨nested.1, nested.2, hnested⟩
  · simp only [Result.bind_ok_iff, Result.pure_ok_iff] at h
    obtain ⟨found, hfound, h⟩ := h
    cases h
    exact .inr ⟨name, hfound⟩

theorem namesClass_of_flat {attributeName : Bytes} {resolved : ResolvedAttribute}
    (h : flat p attributeName a = .ok resolved) (hname : resolved.Carries name) :
    p.NamesClass name := by
  unfold flat at h
  -- One alternative after another, in the order in which names are compared.
  rcases Result.ite_ok h with h | h
  · simp only [Result.bind_ok_iff, Result.pure_ok_iff] at h
    obtain ⟨_, _, rfl⟩ := h
    cases hname
  rcases Result.ite_ok h with h | h
  · simp only [Result.bind_ok_iff, Result.pure_ok_iff] at h
    obtain ⟨_, _, _, _, rfl⟩ := h
    cases hname
  rcases Result.ite_ok h with h | h
  · simp only [Result.bind_ok_iff, Result.pure_ok_iff] at h
    obtain ⟨_, _, rfl⟩ := h
    cases hname
  rcases Result.ite_ok h with h | h
  · simp only [Result.bind_ok_iff, Result.pure_ok_iff] at h
    obtain ⟨_, _, _, _, rfl⟩ := h
    cases hname
  rcases Result.ite_ok h with h | h
  · simp only [Result.bind_ok_iff, Result.pure_ok_iff] at h
    obtain ⟨indices, _, classes, hclasses, rfl⟩ := h
    cases hname with
    | exception hmem =>
      obtain ⟨index, _, hindex⟩ := Result.exists_of_mem_mapM hclasses hmem
      exact ⟨index, hindex⟩
  rcases Result.ite_ok h with h | h
  · simp only [Result.bind_ok_iff, Result.pure_ok_iff] at h
    obtain ⟨_, _, _, _, rfl⟩ := h
    cases hname
  rcases Result.ite_ok h with h | h
  · simp only [Result.bind_ok_iff, Result.pure_ok_iff] at h
    obtain ⟨stored, _, rows, hrows, rfl⟩ := h
    cases hname with
    | inner hrow =>
      obtain ⟨row, _, hresolved⟩ := Result.exists_of_mem_mapM hrows hrow
      exact (namesClass_of_innerClass hresolved).1
    | outer hrow houter =>
      obtain ⟨row, _, hresolved⟩ := Result.exists_of_mem_mapM hrows hrow
      exact (namesClass_of_innerClass hresolved).2 houter
  rcases Result.ite_ok h with h | h
  · simp only [Result.bind_ok_iff, Result.pure_ok_iff] at h
    obtain ⟨stored, _, rows, hrows, rfl⟩ := h
    cases hname with
    | bootstrap hrow =>
      obtain ⟨row, _, hresolved⟩ := Result.exists_of_mem_mapM hrows hrow
      exact (namesClass_of_bootstrapMethod hresolved).1
    | argument hrow href hclass =>
      obtain ⟨row, _, hresolved⟩ := Result.exists_of_mem_mapM hrows hrow
      exact (namesClass_of_bootstrapMethod hresolved).2 _ href _ hclass
  rcases Result.ite_ok h with h | h
  · simp only [Result.bind_ok_iff, Result.pure_ok_iff] at h
    obtain ⟨_, _, rfl⟩ := h
    cases hname
  rcases Result.ite_ok h with h | h
  · simp only [Result.bind_ok_iff, Result.pure_ok_iff] at h
    obtain ⟨_, _, rfl⟩ := h
    cases hname
  · cases h

theorem namesClass_of_resolveAttribute {resolved : ResolvedAttribute}
    (h : r.resolveAttribute p a = .ok (some resolved)) (hname : resolved.Carries name) :
    p.NamesClass name := by
  induction hlength : a.info.length using Nat.strongRecOn generalizing a resolved with
  | ind length ih =>
    obtain ⟨c, body, hc, rfl, hinstructions, hhandlers, hnested⟩ | ⟨_, hflat⟩ :=
      resolveAttribute_ok h
    · cases hname with
      | instruction hi href hclass =>
        obtain ⟨i, _, hresolved⟩ := Result.exists_of_mem_mapM hinstructions hi
        exact namesClass_of_instruction hresolved href hclass
      | handler hh hcatch =>
        obtain ⟨row, _, hresolved⟩ := Result.exists_of_mem_mapM hhandlers hh
        exact namesClass_of_handler hresolved hcatch
      | nested hb hcarries =>
        obtain ⟨stored, hstored, hresolved⟩ := hnested _ hb
        have hlt := Payload.info_lt_of_code hc hstored
        exact ih _ (hlength ▸ hlt) hresolved hcarries rfl
    · exact namesClass_of_flat hflat hname

theorem namesClass_of_resolveAttributes {path : List Bytes} {attributes : List Attribute}
    {resolved : List ResolvedAttribute} {b : ResolvedAttribute}
    (h : r.resolveAttributes p path attributes = .ok resolved) (hb : b ∈ resolved)
    (hname : b.Carries name) : p.NamesClass name := by
  obtain ⟨a, _, hresolved⟩ := mem_each h hb
  exact namesClass_of_resolveAttribute hresolved hname

-- ---------------------------------------------------------------------------
-- Whole classes
-- ---------------------------------------------------------------------------

/-- The pool is the only source of the names that a resolved class carries. -/
theorem namesClass_of_resolve {c : ClassFile} {resolved : ResolvedClass}
    (h : r.resolve c = .ok resolved) (hname : resolved.Carries name) :
    c.pool.NamesClass name := by
  simp only [resolve, contents, Result.bind_ok_iff, Result.mapError_ok_iff,
    Result.pure_ok_iff] at h
  obtain ⟨self, _, superName, hsuper, interfaces, hinterfaces, fields, hfields, methods, hmethods,
    attributes, hattributes, rfl⟩ := h
  cases hname with
  | superName hne =>
    rw [ClassFile.superName] at hsuper
    split_ifs at hsuper
    · exact ⟨_, hsuper⟩
    · cases hsuper
      exact absurd rfl hne
  | interface hmem =>
    obtain ⟨index, _, hindex⟩ := Result.exists_of_mem_mapM hinterfaces hmem
    exact ⟨index, hindex⟩
  | field hf ha hcarries =>
    obtain ⟨stored, _, hresolved⟩ := Result.exists_of_mem_mapM hfields hf
    simp only [resolveField, Result.bind_ok_iff, Result.pure_ok_iff] at hresolved
    obtain ⟨_, _, _, _, _, _, resolved, hresolved, rfl⟩ := hresolved
    exact namesClass_of_resolveAttributes hresolved ha hcarries
  | method hm ha hcarries =>
    obtain ⟨stored, _, hresolved⟩ := Result.exists_of_mem_mapM hmethods hm
    simp only [resolveMethod, Result.bind_ok_iff, Result.pure_ok_iff] at hresolved
    obtain ⟨_, _, _, _, _, _, resolved, hresolved, rfl⟩ := hresolved
    exact namesClass_of_resolveAttributes hresolved ha hcarries
  | own ha hcarries => exact namesClass_of_resolveAttributes hattributes ha hcarries

end Resolver
end ClassHeader
