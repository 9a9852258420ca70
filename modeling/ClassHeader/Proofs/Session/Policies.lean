import ClassHeader.Proofs.Cpp.Declared
import ClassHeader.Proofs.Session.Fresh

/-!
# Strict and structural edges

The structural policy reads more of each class, to tell which of its dependencies have
to come first. It finds nothing there that resolving the class does not find as well,
so whatever compiles under the strict policy compiles under the structural one: from
the same graph, less the demand that mere references come first.
-/

namespace ClassHeader

-- ---------------------------------------------------------------------------
-- One class
-- ---------------------------------------------------------------------------

theorem Resolver.exists_structuralNames {resolver : Resolver} {c : ClassFile} {r : ResolvedClass}
    (h : resolver.resolve c = .ok r) : ∃ names, c.structuralNames = .ok names := by
  simp only [Resolver.resolve, Resolver.contents, Result.bind_ok_iff, Result.mapError_ok_iff,
    Result.pure_ok_iff] at h
  obtain ⟨_, _, superName, hsuper, interfaces, hinterfaces, fields, hfields, _⟩ := h
  have hreadable : ∀ f ∈ c.fields, ∃ name, (do
      return (← FieldType.parse (← f.descriptor c.pool)).className? : Result _) = .ok name := by
    intro f hf
    obtain ⟨resolved, -, hresolved⟩ := Result.exists_mem_of_mapM hfields hf
    simp only [Resolver.resolveField, Result.bind_ok_iff, Result.mapError_ok_iff] at hresolved
    obtain ⟨_, _, descriptor, hdescriptor, type, htype, _⟩ := hresolved
    exact ⟨_, by rw [hdescriptor, Result.ok_bind, htype, Result.ok_bind]; rfl⟩
  obtain ⟨classes, hclasses⟩ := Result.exists_mapM hreadable
  exact ⟨_, by rw [ClassFile.structuralNames, hsuper, Result.ok_bind, hinterfaces, Result.ok_bind,
    hclasses]; rfl⟩

-- ---------------------------------------------------------------------------
-- Graphs
-- ---------------------------------------------------------------------------

/-- A graph with fewer hard edges than one that has an order has an order, too. -/
theorem Graph.exists_topologicalOrder {g g' : Graph} {order : List Bytes} (hg : g.WellFormed)
    (hg' : g'.WellFormed) (hsub : ∀ source target, g'.HardEdge source target →
      g.HardEdge source target) (horder : g.topologicalOrder = .ok order) :
    ∃ order', g'.topologicalOrder = .ok order' := by
  cases hresult : g'.topologicalOrder with
  | ok order' => exact ⟨order', rfl⟩
  | error e =>
    obtain ⟨fault, -, -, hcycle⟩ := topologicalOrder_error hg' hresult
    obtain ⟨name, hloop⟩ := hcycle.transGen
    -- A cycle of the fewer edges is one of the others, which go backwards in the order.
    have hloop' : Relation.TransGen g.HardEdge name name := Relation.TransGen.mono hsub _ _ hloop
    have hbefore := idxOf_lt_of_transGen (topologicalOrder_ok hg horder).2 hloop'
    exact absurd hbefore (Nat.lt_irrefl _)

namespace Collect

variable {load : Bytes → Result ClassFile} {policy policy' : EdgePolicy} {main : Bytes} {g : Graph}

theorem length_asked_le {left : Nat} {s : State} {asked asked' : List Bytes}
    {result : Result Graph}
    (h : (run (recorded load) policy left s).run asked = (result, asked')) :
    asked'.length ≤ asked.length + left := by
  obtain ⟨graph, visited, queue⟩ := s
  induction left generalizing graph visited queue asked with
  | zero => cases queue <;> cases h <;> exact Nat.le_refl _
  | succ left ih =>
    cases queue with
    | nil =>
      cases h
      exact Nat.le_add_right _ _
    | cons name queue =>
      rw [run_recorded] at h
      cases hfollow : Collect.follow load policy name ⟨graph, visited, queue⟩ with
      | error e =>
        rw [hfollow] at h
        cases h
        simp
      | ok s =>
        rw [hfollow] at h
        have hrest := ih s.graph s.visited s.queue h
        rw [List.length_append, List.length_singleton] at hrest
        omega

theorem Progress.nodes_subset {done : List Bytes} {s : State}
    (h : Progress load policy' main done s)
    (hfinished : Progress load policy main g.nodes ⟨g, g.nodes, []⟩) : s.graph.nodes ⊆ g.nodes := by
  intro name hname
  obtain ⟨rounds, hrounds⟩ := h.breadthFirst
  exact mem_of_reachedBy hfinished.found.symm (reachedBy_of_mem_discovered (hrounds.subset hname))

theorem Progress.finite (h : Progress load policy main g.nodes ⟨g, g.nodes, []⟩) :
    {name | ReachedBy (dependenciesOf load) main name}.Finite :=
  (List.finite_toSet g.nodes).subset fun _ hname => mem_of_reachedBy h.found.symm hname

/-- A graph that is collected under one policy is collected under another with the same nodes and
pairs, if the other can read all of its classes. -/
theorem exists_collect {limit : Nat} {asked : List Bytes}
    (hrun : (collect (some (recorded load)) policy limit main).run [] = (.ok g, asked))
    (hall : ∀ name ∈ g.nodes, Collectable load policy' name) :
    ∃ g' asked', (collect (some (recorded load)) policy' limit main).run [] = (.ok g', asked') ∧
      Progress load policy' main g'.nodes ⟨g', g'.nodes, []⟩ ∧ g'.nodes = g.nodes ∧
      g'.edges.map Edge.ends = g.edges.map Edge.ends := by
  have hended := collect_ended load policy limit main
  have hended' := collect_ended load policy' limit main
  rw [hrun] at hended
  obtain ⟨rfl, hprogress⟩ := hended
  have hlimit : g.nodes.length ≤ 0 + (limit + 1) := length_asked_le hrun
  rcases hrun' : (collect (some (recorded load)) policy' limit main).run [] with ⟨result, asked'⟩
  rw [hrun'] at hended'
  cases result with
  | ok g' =>
    obtain ⟨-, hprogress'⟩ := hended'
    have hnodes : g'.nodes = g.nodes :=
      (hprogress'.nodes_eq_discovered hprogress.finite).trans
        (hprogress.nodes_eq_discovered hprogress.finite).symm
    refine ⟨g', asked', rfl, hprogress', hnodes, ?_⟩
    have hedges : g.edges = g.nodes.flatMap (edgesOf load policy) := hprogress.edges_eq
    have hedges' : g'.edges = g'.nodes.flatMap (edgesOf load policy') := hprogress'.edges_eq
    rw [hedges, hedges', hnodes, List.map_flatMap, List.map_flatMap]
    refine List.flatMap_congr fun name hname => ?_
    rw [map_ends_edgesOf (hall name hname), map_ends_edgesOf (hprogress.collectable name hname)]
  | error e =>
    obtain ⟨done, name, visited, queue, graph, hpartial, hfails⟩ := hended'
    have hsub : done ++ name :: queue ⊆ g.nodes :=
      hpartial.nodes_eq ▸ hpartial.nodes_subset hprogress
    rcases hfails with ⟨hfails, -⟩ | hlong
    · exact absurd (hall name (hsub (by simp))) hfails.not_collectable
    · -- All classes of the queue were among those that the first run asked for.
      have hnodup : (done ++ name :: queue).Nodup :=
        hpartial.nodes_eq ▸ hpartial.built.wellFormed.nodes_nodup
      have hlength := (List.subperm_of_subset hnodup hsub).length_le
      rw [List.length_append, List.length_cons] at hlength
      omega

theorem hard_of_mem_edgesOf_strict {name : Bytes} {e : Edge} (h : e ∈ edgesOf load .strict name) :
    e.kind = .hard := by
  obtain ⟨found, hfound, rfl⟩ := List.mem_map.mp h
  cases hkinds : (load name >>= (·.dependencyKinds .strict)) with
  | error cause =>
    rw [hkinds] at hfound
    cases hfound
  | ok kinds =>
    rw [hkinds] at hfound
    obtain ⟨c, -, hc⟩ := Result.bind_ok_iff.mp hkinds
    obtain ⟨names, -, rfl⟩ := ClassFile.dependencyKinds_ok_iff.mp hc
    obtain ⟨_, -, rfl⟩ := List.mem_map.mp hfound
    rfl

theorem Progress.hardEdge_of_ends (h : Progress load .strict main g.nodes ⟨g, g.nodes, []⟩)
    {source target : Bytes} (hends : (source, target) ∈ g.edges.map Edge.ends) :
    g.HardEdge source target := by
  have hedges : g.edges = g.nodes.flatMap (edgesOf load .strict) := h.edges_eq
  obtain ⟨⟨s, t, kind⟩, he, hpair⟩ := List.mem_map.mp hends
  cases hpair
  obtain ⟨name, -, hown⟩ := List.mem_flatMap.mp (hedges ▸ he)
  have hkind : kind = .hard := hard_of_mem_edgesOf_strict hown
  exact hkind ▸ he

end Collect

-- ---------------------------------------------------------------------------
-- Compiling
-- ---------------------------------------------------------------------------

theorem Provider.collectable_of_resolved {provider : Provider Id} {ignored : List Bytes}
    {policy : EdgePolicy} {name : Bytes} {r : ResolvedClass}
    (h : Collect.Collectable provider.classFile policy name)
    (hr : provider.resolved ignored name = .ok r) :
    Collect.Collectable provider.classFile .structural name := by
  obtain ⟨c, hload, hdependencies, -⟩ := h
  rw [Provider.resolved, hload, Result.ok_bind] at hr
  exact ⟨c, hload, hdependencies, fun _ => Resolver.exists_structuralNames hr⟩

namespace Session

/-- A header is accepted with its classes in any order if it is in one. -/
def IgnoresOrder (parse : Cpp.TreeParser) : Prop :=
  ∀ {options order order' classes classes' node node'}, order'.Perm order → classes'.Perm classes →
    Cpp.header options order classes = .ok node → Cpp.header options order' classes' = .ok node' →
    Cpp.verify parse node.text = .ok () → Cpp.verify parse node'.text = .ok ()

theorem verify_of_perm {parser : Option Cpp.TreeParser} {headerOptions : Cpp.HeaderOptions}
    {order order' : List Bytes} {classes classes' : List ResolvedClass} {node node' : Cpp.Node}
    (hparser : ∀ parse ∈ parser, IgnoresOrder parse) (hperm : order'.Perm order)
    (hclasses : classes'.Perm classes) (h : Cpp.header headerOptions order classes = .ok node)
    (h' : Cpp.header headerOptions order' classes' = .ok node')
    (haccepted : Cpp.verify parser node.text = .ok ()) :
    Cpp.verify parser node'.text = .ok () := by
  cases parser with
  | none => cases haccepted
  | some parse => exact hparser parse rfl hperm hclasses h h' haccepted

/-- What compiles under the strict policy compiles under the structural one: the same classes, from
a graph with the same pairs, of which no more have to come first. If there is a parser to verify
the source with, it has to ignore the order of the classes. -/
theorem structural_compiles_of_strict (options : SessionOptions) (provider : Provider Id)
    (main : Bytes) {strict : Compilation}
    (hparser : options.verify = true → ∀ parse ∈ options.parser, IgnoresOrder parse)
    (h : onFresh (compile { options with policy := .strict } provider.recorded main) = .ok strict) :
    ∃ structural,
      onFresh (compile { options with policy := .structural } provider.recorded main) =
        .ok structural ∧
      structural.order.Perm strict.order ∧ structural.graph.nodes = strict.graph.nodes ∧
      structural.graph.edges.map Edge.ends = strict.graph.edges.map Edge.ends ∧
      ∀ source target, structural.graph.HardEdge source target →
        strict.graph.HardEdge source target := by
  rw [(compile_yields _ provider main).onFresh, Provider.compilation_ok_iff] at h
  obtain ⟨g, order, classes, node, hgraph, horder, hclasses, hnode, hverify, rfl⟩ := h
  obtain ⟨asked, hrun, hprogress⟩ := Provider.graph_ok hgraph
  have hordered := (Graph.topologicalOrder_ok hprogress.built.wellFormed horder).1
  -- Each class of the graph is one of the order, so it was resolved.
  have hreadable : ∀ name ∈ g.nodes, Collect.Collectable provider.classFile .structural name := by
    intro name hname
    obtain ⟨r, -, hr⟩ := Result.exists_mem_of_mapM hclasses (hordered.mem_iff.mpr hname)
    exact Provider.collectable_of_resolved (hprogress.collectable name hname) hr
  obtain ⟨g', asked', hrun', hprogress', hnodes, hends⟩ := Collect.exists_collect hrun hreadable
  have hsub : ∀ source target, g'.HardEdge source target → g.HardEdge source target := by
    intro source target hedge
    exact hprogress.hardEdge_of_ends (hends ▸ List.mem_map.mpr ⟨_, hedge, rfl⟩)
  obtain ⟨order', horder'⟩ := Graph.exists_topologicalOrder hprogress.built.wellFormed
    hprogress'.built.wellFormed hsub horder
  have hperm : order'.Perm order :=
    (Graph.topologicalOrder_ok hprogress'.built.wellFormed horder').1.trans (hnodes ▸ hordered.symm)
  obtain ⟨classes', hclasses', hsame⟩ := Result.exists_mapM_of_perm hperm hclasses
  obtain ⟨node', hnode'⟩ := Cpp.exists_header_of_subset hnode hperm.subset hsame.subset
  refine ⟨{ graph := g', order := order', source := node'.text }, ?_, hperm, hnodes, hends, hsub⟩
  rw [(compile_yields _ provider main).onFresh, Provider.compilation_ok_iff]
  refine ⟨g', order', classes', node', ?_, horder', hclasses', hnode', fun hon => ?_, rfl⟩
  · rw [Provider.graph, hrun']
  · exact verify_of_perm (hparser hon) hperm hsame hnode hnode' (hverify hon)

def lineage : Provider Id where
  fetch name :=
    let c :=
      if name = text "A" then Collect.referring name (text "B")
      else if name = text "B" then { Collect.referring name (text "C") with superClass := 4 }
      else Collect.referring name name
    .ok { data := c.encode }
  capacity := 3

def verifying : SessionOptions where
  verify := true
  parser := some fun _ => .ok (.node { kind := text "translation_unit" } [])

theorem structural_compiles_of_strict_lineage :
    ∃ strict structural,
      onFresh (compile { verifying with policy := .strict } lineage.recorded (text "A")) =
        .ok strict ∧
      onFresh (compile { verifying with policy := .structural } lineage.recorded (text "A")) =
        .ok structural ∧
      strict.order = [text "C", text "B", text "A"] ∧ structural.order.Perm strict.order ∧
      strict.graph.HardEdge (text "A") (text "B") ∧
      ¬ structural.graph.HardEdge (text "A") (text "B") ∧
      structural.graph.HardEdge (text "B") (text "C") := by
  have hstrict : (onFresh (compile { verifying with policy := .strict }
      lineage.recorded (text "A"))).map
      (fun c => (c.order, c.graph.edges)) =
        .ok ([text "C", text "B", text "A"],
          [⟨text "A", text "B", .hard⟩, ⟨text "B", text "C", .hard⟩]) := by
    decide +kernel
  have hstructural : (onFresh (compile { verifying with policy := .structural }
      lineage.recorded (text "A"))).map
      (fun c => c.graph.edges) =
        .ok [⟨text "A", text "B", .soft⟩, ⟨text "B", text "C", .hard⟩] := by
    decide +kernel
  have hparser : ∀ parse ∈ verifying.parser, IgnoresOrder parse := by
    rintro parse ⟨⟩ _ _ _ _ _ _ _ _ _ _ _ _
    rfl
  cases hrun : onFresh (compile { verifying with policy := .strict }
      lineage.recorded (text "A")) with
  | error e =>
    rw [hrun] at hstrict
    cases hstrict
  | ok strict =>
    rw [hrun] at hstrict
    obtain ⟨horder, hedges⟩ := Prod.mk.inj (Except.ok.inj hstrict)
    obtain ⟨structural, hrun', hperm, -⟩ := structural_compiles_of_strict verifying lineage
      (text "A") (fun _ => hparser) hrun
    have hedges' : structural.graph.edges = _ :=
      Except.ok.inj ((congrArg (Except.map _) hrun').symm.trans hstructural)
    refine ⟨strict, structural, rfl, hrun', horder, hperm, ?_, ?_, ?_⟩ <;>
      simp only [Graph.HardEdge, hedges, hedges'] <;> decide

end Session
end ClassHeader
