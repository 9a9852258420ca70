import ClassHeader.Proofs.Cpp.Bases
import ClassHeader.Proofs.Session.Fresh

/-!
# Descent

Bases come before the classes that have them, so classes that descend from each other
have no order and are not compiled. A class is no dependency of itself, though: that a
class is its own base goes unnoticed, and its struct then derives from itself.
-/

namespace ClassHeader

theorem Resolver.hasBase_of_mem_baseNames {resolver : Resolver} {c : ClassFile} {r : ResolvedClass}
    {written : Bytes} (hr : resolver.resolve c = .ok r)
    (h : written ∈ Cpp.Header.baseNames r) :
    ∃ base, c.HasBase base ∧ Cpp.qualifiedName base = written := by
  simp only [Resolver.resolve, Resolver.contents, Result.bind_ok_iff, Result.mapError_ok_iff,
    Result.pure_ok_iff] at hr
  obtain ⟨_, _, superName, hsuper, interfaces, hinterfaces, _, _, _, _, _, _, rfl⟩ := hr
  obtain ⟨base, hbase, rfl⟩ := List.mem_map.mp h
  refine ⟨base, ?_, rfl⟩
  rcases List.mem_append.mp hbase with hbase | hbase
  · split_ifs at hbase with hnone
    · cases hbase
    · cases List.mem_singleton.mp hbase
      refine .inl ⟨?_, hsuper⟩
      -- A class without a superclass has the empty name for it.
      by_contra hroot
      rw [ClassFile.superName, if_neg hroot] at hsuper
      cases hsuper
      exact hnone (.inl rfl)
  · exact .inr ⟨interfaces, hinterfaces, hbase⟩

namespace Provider

/-- `base` is the superclass or a direct interface of the class of a name. -/
def HasBase (provider : Provider Id) (name base : Bytes) : Prop :=
  ∃ c, provider.classFile name = .ok c ∧ c.HasBase base

def HasClassBase (provider : Provider Id) (name base : Bytes) : Prop :=
  provider.HasBase name base ∧ base.head? ≠ some Ascii.openBracket

variable {provider : Provider Id} {options : SessionOptions} {main name base other : Bytes}
  {compilation : Compilation}

theorem mem_order_of_reachedBy (h : provider.compilation options main = .ok compilation)
    (hname : ReachedBy (Collect.dependenciesOf provider.classFile) main name) :
    name ∈ compilation.order := by
  obtain ⟨g, order, _, _, hgraph, horder, _, _, _, rfl⟩ := compilation_ok_iff.mp h
  obtain ⟨-, -, hprogress⟩ := graph_ok hgraph
  obtain ⟨hperm, -⟩ := Graph.topologicalOrder_ok hprogress.built.wellFormed horder
  exact hperm.mem_iff.mpr (mem_of_reachedBy hprogress.found.symm hname)

theorem base_first (h : provider.compilation options main = .ok compilation)
    (hname : name ∈ compilation.order) (hbase : provider.HasClassBase name base) :
    base = name ∨ base ∈ compilation.order ∧
      compilation.order.idxOf base < compilation.order.idxOf name := by
  obtain ⟨g, order, _, _, hgraph, horder, _, _, _, rfl⟩ := compilation_ok_iff.mp h
  obtain ⟨-, -, hprogress⟩ := graph_ok hgraph
  obtain ⟨hperm, hfirst⟩ := Graph.topologicalOrder_ok hprogress.built.wellFormed horder
  obtain ⟨⟨c, hc, hbase⟩, hplain⟩ := hbase
  obtain ⟨_, _, _, _, _, _, hdeclared⟩ := classFile_ok hc
  by_cases hne : base = name
  · exact .inl hne
  · have hedge : g.HardEdge name base :=
      hprogress.hardEdge (hperm.mem_iff.mp hname) hc hdeclared hbase hne hplain
    exact .inr ⟨hperm.mem_iff.mpr (hprogress.built.wellFormed.target_mem _ hedge),
      hfirst name base hedge⟩

theorem ancestor_first (h : provider.compilation options main = .ok compilation)
    (hname : name ∈ compilation.order)
    (hother : Relation.ReflTransGen provider.HasClassBase name other) :
    other = name ∨ other ∈ compilation.order ∧
      compilation.order.idxOf other < compilation.order.idxOf name := by
  induction hother with
  | refl => exact .inl rfl
  | tail _ hbase ih =>
    rcases ih with rfl | ⟨hmem, hlt⟩
    · exact base_first h hname hbase
    · rcases base_first h hmem hbase with rfl | ⟨hmem', hlt'⟩
      · exact .inr ⟨hmem, hlt⟩
      · exact .inr ⟨hmem', hlt'.trans hlt⟩

theorem eq_of_mutual_descent (h : provider.compilation options main = .ok compilation)
    (hname : name ∈ compilation.order)
    (hdown : Relation.ReflTransGen provider.HasClassBase name other)
    (hup : Relation.ReflTransGen provider.HasClassBase other name) : other = name := by
  rcases ancestor_first h hname hdown with heq | ⟨hother, hlt⟩
  · exact heq
  · rcases ancestor_first h hother hup with heq | ⟨-, hlt'⟩
    · exact heq.symm
    · exact absurd hlt (Nat.lt_asymm hlt')

/-- A class that descends from itself is its own base. -/
theorem hasBase_self (h : provider.compilation options main = .ok compilation)
    (hname : name ∈ compilation.order)
    (hloop : Relation.TransGen provider.HasClassBase name name) : provider.HasBase name name := by
  obtain ⟨base, hbase, hback⟩ := Relation.TransGen.head'_iff.mp hloop
  have heq := eq_of_mutual_descent h hname (.single hbase) hback
  exact heq ▸ hbase.1

-- ---------------------------------------------------------------------------
-- The header
-- ---------------------------------------------------------------------------

section

variable {order : List Bytes} {classes : List ResolvedClass} {node : Cpp.Node}
  {headerOptions : Cpp.HeaderOptions} {ignored : List Bytes}

theorem name_of_resolved {r : ResolvedClass} (h : provider.resolved ignored name = .ok r) :
    r.name = name := by
  obtain ⟨c, hc, hr⟩ := Result.bind_ok_iff.mp h
  obtain ⟨_, _, _, _, _, _, hdeclared⟩ := classFile_ok hc
  exact Except.ok.inj ((Session.name_of_resolve hr).symm.trans hdeclared)

theorem qualifiedName_injOn (hclasses : order.mapM (provider.resolved ignored) = .ok classes)
    (hnode : Cpp.header headerOptions order classes = .ok node)
    (hnames : ∀ name ∈ order, Utf8.isValid name = true ∧ name.head? ≠ some Ascii.slash) :
    Set.InjOn Cpp.qualifiedName {name | name ∈ order} := by
  have hpackage : ∀ name ∈ order, [] ∉ Cpp.packageParts (Cpp.splitClassName name).1 := by
    intro name hname
    obtain ⟨r, hmem, hr⟩ := Result.exists_mem_of_mapM hclasses hname
    exact name_of_resolved hr ▸ (Cpp.Introduced.defined hmem).package hnode
  intro name hname other hother heq
  rw [Cpp.qualifiedName_eq_iff (hpackage name hname) (hpackage other hother)] at heq
  exact Cpp.readName_injOn (hnames name hname) (hnames other hother) heq

theorem hasBase_of_derives (hclasses : order.mapM (provider.resolved ignored) = .ok classes)
    (hnode : Cpp.header headerOptions order classes = .ok node) {struct written : Bytes}
    (h : node.Derives struct written) :
    ∃ name ∈ order, ∃ base, provider.HasBase name base ∧
      Cpp.qualifiedName name = struct ∧ Cpp.qualifiedName base = written := by
  obtain ⟨r, hmem, rfl, hwritten⟩ := (Cpp.header_derives_iff hnode).mp h
  obtain ⟨name, hname, hresolved⟩ := Result.exists_of_mem_mapM hclasses hmem
  obtain ⟨c, hc, hr⟩ := Result.bind_ok_iff.mp hresolved
  obtain ⟨base, hbase, rfl⟩ := Resolver.hasBase_of_mem_baseNames hr hwritten
  exact ⟨name, hname, base, ⟨c, hc, hbase⟩, by rw [name_of_resolved hresolved], rfl⟩

theorem descends_of_derives (hclasses : order.mapM (provider.resolved ignored) = .ok classes)
    (hnode : Cpp.header headerOptions order classes = .ok node)
    (hnames : ∀ name ∈ order, Utf8.isValid name = true ∧ name.head? ≠ some Ascii.slash)
    (hbases : ∀ name ∈ order, ∀ base, provider.HasBase name base →
      base ∈ order ∧ base.head? ≠ some Ascii.openBracket) {struct written : Bytes}
    (h : Relation.TransGen node.Derives struct written) :
    ∃ name ∈ order, ∃ base ∈ order, Relation.TransGen provider.HasClassBase name base ∧
      Cpp.qualifiedName name = struct ∧ Cpp.qualifiedName base = written := by
  have hstep : ∀ {struct written}, node.Derives struct written → ∃ name ∈ order, ∃ base ∈ order,
      provider.HasClassBase name base ∧ Cpp.qualifiedName name = struct ∧
        Cpp.qualifiedName base = written := by
    intro struct written hderives
    obtain ⟨name, hname, base, hbase, rfl, rfl⟩ := hasBase_of_derives hclasses hnode hderives
    obtain ⟨hmem, hplain⟩ := hbases name hname base hbase
    exact ⟨name, hname, base, hmem, ⟨hbase, hplain⟩, rfl, rfl⟩
  induction h with
  | single hderives =>
    obtain ⟨name, hname, base, hmem, hbase, heqs⟩ := hstep hderives
    exact ⟨name, hname, base, hmem, .single hbase, heqs⟩
  | tail _ hderives ih =>
    obtain ⟨name, hname, middle, hmiddle, hdescends, rfl, hwritten⟩ := ih
    obtain ⟨middle', hmiddle', base, hmem, hbase, hstruct, rfl⟩ := hstep hderives
    obtain rfl : middle' = middle :=
      qualifiedName_injOn hclasses hnode hnames hmiddle' hmiddle (hstruct.trans hwritten.symm)
    exact ⟨name, hname, base, hmem, hdescends.tail hbase, rfl, rfl⟩

end

end Provider

namespace Session

/-- Two classes that descend from each other keep the class that needs them from being compiled.
In a header of classes with distinct names, none of which has an array for a base, a struct derives
from itself, directly or through others, only where a class is its own superclass or interface. -/
theorem descent_loops_only_at_own_bases (options : SessionOptions) (provider : Provider Id)
    (main : Bytes) :
    (∀ name other, ReachedBy (Collect.dependenciesOf provider.classFile) main name →
      name ≠ other → Relation.ReflTransGen provider.HasClassBase name other →
      Relation.ReflTransGen provider.HasClassBase other name →
      ∃ e, onFresh (compile options provider.recorded main) = .error e) ∧
    ∀ compilation, onFresh (compile options provider.recorded main) = .ok compilation →
      (∀ name ∈ compilation.order, Utf8.isValid name = true ∧ name.head? ≠ some Ascii.slash) →
      (∀ name ∈ compilation.order, ∀ base, provider.HasBase name base →
        base.head? ≠ some Ascii.openBracket) →
      ∃ classes node, compilation.order.mapM (provider.resolved options.ignore) = .ok classes ∧
        Cpp.header ⟨options.comment, options.disassemble⟩ compilation.order classes = .ok node ∧
        compilation.source = node.text ∧
        ∀ struct, Relation.TransGen node.Derives struct struct →
          ∃ name ∈ compilation.order, Cpp.qualifiedName name = struct ∧
            provider.HasBase name name := by
  rw [(compile_yields options provider main).onFresh]
  refine ⟨fun name other hreached hne hdown hup => ?_, fun compilation h hnames harrays => ?_⟩
  · cases h : provider.compilation options main with
    | error e => exact ⟨e, rfl⟩
    | ok compilation =>
      have hname := Provider.mem_order_of_reachedBy h hreached
      exact absurd (Provider.eq_of_mutual_descent h hname hdown hup).symm hne
  · have hbases : ∀ name ∈ compilation.order, ∀ base, provider.HasBase name base →
        base ∈ compilation.order ∧ base.head? ≠ some Ascii.openBracket := by
      intro name hname base hbase
      have hplain := harrays name hname base hbase
      rcases Provider.base_first h hname ⟨hbase, hplain⟩ with rfl | ⟨hmem, -⟩
      · exact ⟨hname, hplain⟩
      · exact ⟨hmem, hplain⟩
    obtain ⟨g, order, classes, node, -, -, hclasses, hnode, -, hcompilation⟩ :=
      Provider.compilation_ok_iff.mp h
    have horder : compilation.order = order := congrArg Compilation.order hcompilation
    rw [← horder] at hclasses hnode
    refine ⟨classes, node, hclasses, hnode, congrArg Compilation.source hcompilation, ?_⟩
    intro struct hloop
    obtain ⟨name, hname, base, hmem, hdescends, rfl, heq⟩ :=
      Provider.descends_of_derives hclasses hnode hnames hbases hloop
    obtain rfl : base = name :=
      Provider.qualifiedName_injOn hclasses hnode hnames hmem hname heq
    exact ⟨base, hname, rfl, Provider.hasBase_self h hname hdescends⟩

def inheriting (name base : Bytes) : ClassFile :=
  { Collect.referring name base with superClass := 4 }

theorem inheriting_hasBase_iff {name base other : Bytes} :
    (inheriting name base).HasBase other ↔ other = base := by
  have hsuper : (inheriting name base).superName = .ok base := rfl
  constructor
  · rintro (⟨-, hother⟩ | ⟨names, hnames, hmem⟩)
    · exact Except.ok.inj (hother.symm.trans hsuper)
    · cases hnames
      cases hmem
  · rintro rfl
    exact .inl ⟨rfl, hsuper⟩

def pair (upper : Bytes) : Provider Id where
  fetch name :=
    .ok { data := (inheriting name (if name = text "A" then text "B" else upper)).encode }
  capacity := 2

theorem descent_loops_only_at_own_bases_pair :
    (∃ e, onFresh (compile {} (pair (text "A")).recorded (text "A")) = .error e) ∧
      ∃ compilation classes node,
        onFresh (compile {} (pair (text "B")).recorded (text "A")) = .ok compilation ∧
        compilation.order = [text "B", text "A"] ∧
        Cpp.header {} compilation.order classes = .ok node ∧ compilation.source = node.text ∧
        ∀ struct, Relation.TransGen node.Derives struct struct →
          ∃ name ∈ compilation.order, Cpp.qualifiedName name = struct ∧
            (pair (text "B")).HasBase name name := by
  constructor
  · have hdown : (pair (text "A")).HasClassBase (text "A") (text "B") :=
      ⟨⟨inheriting (text "A") (text "B"), by decide +kernel, inheriting_hasBase_iff.mpr rfl⟩,
        by decide⟩
    have hup : (pair (text "A")).HasClassBase (text "B") (text "A") :=
      ⟨⟨inheriting (text "B") (text "A"), by decide +kernel, inheriting_hasBase_iff.mpr rfl⟩,
        by decide⟩
    exact (descent_loops_only_at_own_bases {} (pair (text "A")) (text "A")).1 (text "A") (text "B")
      .refl (by decide) (.single hdown) (.single hup)
  · have horder : (onFresh (compile {} (pair (text "B")).recorded (text "A"))).map
        Compilation.order = .ok [text "B", text "A"] := by
      decide +kernel
    have hclasses : ∀ name ∈ [text "B", text "A"],
        (pair (text "B")).classFile name = .ok (inheriting name (text "B")) := by
      decide +kernel
    cases hrun : onFresh (compile {} (pair (text "B")).recorded (text "A")) with
    | error e =>
      rw [hrun] at horder
      cases horder
    | ok compilation =>
      rw [hrun] at horder
      have horder := Except.ok.inj horder
      have hplain : ∀ name ∈ compilation.order, ∀ base, (pair (text "B")).HasBase name base →
          base.head? ≠ some Ascii.openBracket := by
        rintro name hname base ⟨c, hc, hbase⟩
        cases (hclasses name (horder ▸ hname)).symm.trans hc
        rw [inheriting_hasBase_iff.mp hbase]
        decide
      obtain ⟨classes, node, -, hnode, hsource, hloops⟩ :=
        (descent_loops_only_at_own_bases {} (pair (text "B")) (text "A")).2 compilation hrun
          (by rw [horder]; decide +kernel) hplain
      exact ⟨compilation, classes, node, rfl, horder, hnode, hsource, hloops⟩

/-- A class that is its own superclass is compiled, to a struct that derives from itself. -/
theorem compile_accepts_own_superclass :
    (pair (text "B")).HasBase (text "B") (text "B") ∧
      ∃ compilation, onFresh (compile {} (pair (text "B")).recorded (text "B")) = .ok compilation ∧
        text "struct B : public ::B" <:+: compilation.source := by
  refine ⟨⟨inheriting (text "B") (text "B"), by decide +kernel, inheriting_hasBase_iff.mpr rfl⟩, ?_⟩
  have hsource : (onFresh (compile {} (pair (text "B")).recorded (text "B"))).map
      (fun c => decide (text "struct B : public ::B" <:+: c.source)) = .ok true := by
    decide +kernel
  cases hrun : onFresh (compile {} (pair (text "B")).recorded (text "B")) with
  | error e =>
    rw [hrun] at hsource
    cases hsource
  | ok compilation =>
    rw [hrun] at hsource
    exact ⟨compilation, rfl, of_decide_eq_true (Except.ok.inj hsource)⟩

end Session
end ClassHeader
