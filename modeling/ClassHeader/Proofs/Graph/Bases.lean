import ClassHeader.Proofs.Descriptor.Field
import ClassHeader.Proofs.Graph.Collect
import ClassHeader.Proofs.Graph.Walk

/-!
# Base classes

Superclass and interfaces are named by class constants, so a class that is no
array depends on its bases, under either policy by edges that put them first.
-/

namespace ClassHeader

theorem Pool.get_ok {p : Pool} {i : UInt16} {constant : Constant} (h : p.get i = .ok constant) :
    some constant ∈ p.entries := by
  unfold Pool.get at h
  split at h
  · cases h
  · split at h
    · cases h
    · cases h
    · cases h
      exact List.mem_of_getElem? ‹_›

theorem Pool.className_ok {p : Pool} {i : UInt16} {name : Bytes} (h : p.className i = .ok name) :
    ∃ index, some (.classRef index) ∈ p.entries ∧ p.utf8 index = .ok name := by
  rw [Pool.className, Result.bind_ok_iff] at h
  obtain ⟨constant, hget, hname⟩ := h
  cases constant with
  | classRef index => exact ⟨index, Pool.get_ok hget, hname⟩
  | _ => cases hname

theorem FieldType.ofClassName_ok {name : Bytes} {type : FieldType}
    (h : FieldType.ofClassName name = .ok type) (harray : name.head? ≠ some Ascii.openBracket) :
    name ≠ [] ∧ type = .object name := by
  rcases FieldType.ofClassName_ok_iff.mp h with ⟨hbracket, -⟩ | ⟨hempty, -, -, htype⟩
  · exact absurd hbracket harray
  · exact ⟨hempty, htype⟩

namespace ClassFile

variable {c : ClassFile} {policy : EdgePolicy} {self base : Bytes}

/-- `base` is the superclass or a direct interface. -/
def HasBase (c : ClassFile) (base : Bytes) : Prop :=
  (c.hasSuper = true ∧ c.superName = .ok base) ∨
    ∃ names, c.interfaceNames = .ok names ∧ base ∈ names

theorem HasBase.className (h : c.HasBase base) : ∃ i, c.pool.className i = .ok base := by
  rcases h with ⟨hsuper, hname⟩ | ⟨names, hnames, hmem⟩
  · rw [superName, if_pos hsuper] at hname
    exact ⟨c.superClass, hname⟩
  · obtain ⟨i, _, hi⟩ := Result.exists_of_mem_mapM hnames hmem
    exact ⟨i, hi⟩

/-- Every class constant names a type, and the class of that type is a dependency, unless it is
the class itself. -/
theorem dependencies_cover {names : List Bytes} {name : Bytes} {i : UInt16}
    (h : c.dependencies = .ok names) (hself : c.name = .ok self)
    (hname : c.pool.className i = .ok name) :
    ∃ type, FieldType.ofClassName name = .ok type ∧
      ∀ target, type.className? = some target → target = self ∨ target ∈ names := by
  obtain ⟨index, hentry, hutf8⟩ := Pool.className_ok hname
  simp only [dependencies, Result.bind_ok_iff, Result.pure_ok_iff] at h
  obtain ⟨self', hself', types, htypes, rfl⟩ := h
  cases hself.symm.trans hself'
  obtain ⟨type, htype, hparsed⟩ := Result.exists_mem_of_mapM htypes
    (List.mem_filterMap.mpr ⟨_, hentry, rfl⟩)
  simp only [hutf8, Result.bind_ok_iff, Except.ok.injEq, exists_eq_left', Result.mapError_ok_iff]
    at hparsed
  refine ⟨type, hparsed, fun target htarget => ?_⟩
  by_cases hne : target = self
  · exact .inl hne
  · refine .inr (mem_distinctFrom.mpr ⟨List.mem_filterMap.mpr ⟨_, htype, htarget⟩, ?_⟩)
    simpa using hne

theorem mem_dependencies {names : List Bytes} {i : UInt16} (h : c.dependencies = .ok names)
    (hself : c.name = .ok self) (hbase : c.pool.className i = .ok base) (hne : base ≠ self)
    (harray : base.head? ≠ some Ascii.openBracket) : base ≠ [] ∧ base ∈ names := by
  obtain ⟨type, htype, hcover⟩ := dependencies_cover h hself hbase
  obtain ⟨hempty, rfl⟩ := FieldType.ofClassName_ok htype harray
  exact ⟨hempty, (hcover base rfl).resolve_left hne⟩

theorem HasBase.mem_structuralNames {first : List Bytes} (h : c.HasBase base) (hbase : base ≠ [])
    (hfirst : c.structuralNames = .ok first) : base ∈ first := by
  simp only [structuralNames, Result.bind_ok_iff, Result.pure_ok_iff] at hfirst
  obtain ⟨superName, hsuper, interfaces, hinterfaces, fieldClasses, _, rfl⟩ := hfirst
  rcases h with ⟨_, hname⟩ | ⟨names, hnames, hmem⟩
  · cases hsuper.symm.trans hname
    simp [hbase]
  · cases hinterfaces.symm.trans hnames
    simp [hmem]

theorem HasBase.mem_dependencyKinds {found : List (Bytes × EdgeKind)} (h : c.HasBase base)
    (hself : c.name = .ok self) (hne : base ≠ self)
    (harray : base.head? ≠ some Ascii.openBracket) (hfound : c.dependencyKinds policy = .ok found) :
    (base, .hard) ∈ found := by
  obtain ⟨names, hnames, hkinds⟩ := dependencyKinds_ok_iff.mp hfound
  obtain ⟨i, hi⟩ := h.className
  obtain ⟨hempty, hmem⟩ := mem_dependencies hnames hself hi hne harray
  cases policy with
  | strict =>
    dsimp only at hkinds
    rw [← hkinds]
    exact List.mem_map.mpr ⟨base, hmem, rfl⟩
  | structural =>
    obtain ⟨first, hfirst, rfl⟩ := hkinds
    refine List.mem_map.mpr ⟨base, hmem, ?_⟩
    rw [if_pos (h.mem_structuralNames hempty hfirst)]

end ClassFile

namespace Collect

variable {load : Bytes → Result ClassFile} {policy : EdgePolicy} {main name base : Bytes}
  {c : ClassFile}

theorem Collectable.dependencyKinds (h : Collectable load policy name) (hload : load name = .ok c) :
    ∃ found, c.dependencyKinds policy = .ok found := by
  obtain ⟨c', hload', ⟨names, hnames⟩, hstructural⟩ := h
  cases hload.symm.trans hload'
  cases policy with
  | strict => exact ⟨_, ClassFile.dependencyKinds_ok_iff.mpr ⟨names, hnames, rfl⟩⟩
  | structural =>
    obtain ⟨first, hfirst⟩ := hstructural rfl
    exact ⟨_, ClassFile.dependencyKinds_ok_iff.mpr ⟨names, hnames, first, hfirst, rfl⟩⟩

/-- In a finished graph a class has an edge to each of its bases, which comes first. -/
theorem Progress.hardEdge {g : Graph} (h : Progress load policy main g.nodes ⟨g, g.nodes, []⟩)
    (hname : name ∈ g.nodes) (hload : load name = .ok c) (hself : c.name = .ok name)
    (hbase : c.HasBase base) (hne : base ≠ name)
    (harray : base.head? ≠ some Ascii.openBracket) : g.HardEdge name base := by
  obtain ⟨found, hfound⟩ := (h.collectable name hname).dependencyKinds hload
  have hedges : g.edges = g.nodes.flatMap (edgesOf load policy) := h.edges_eq
  rw [Graph.HardEdge, hedges, List.mem_flatMap]
  refine ⟨name, hname, List.mem_map.mpr ⟨(base, .hard), ?_, rfl⟩⟩
  simp only [hload, hfound, bind, Except.bind, Except.toOption, Option.getD_some]
  exact hbase.mem_dependencyKinds hself hne harray hfound

end Collect
end ClassHeader
