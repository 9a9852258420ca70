import ClassHeader.Graph.Collect
import ClassHeader.Proofs.Graph.BreadthFirst
import ClassHeader.Proofs.Graph.Built
import ClassHeader.Proofs.Result

/-!
# Collecting dependencies

Collecting follows the dependencies of classes in breadth-first order, asks for
each class once, and gives a graph of all classes that it reaches with an edge for
each of their dependencies. It fails at the first class of that order which cannot
be loaded or read, with the error of that class.
-/

namespace ClassHeader

namespace ClassFile

variable {c : ClassFile} {policy : EdgePolicy} {found : List (Bytes × EdgeKind)}

-- ---------------------------------------------------------------------------
-- Dependencies of one class
-- ---------------------------------------------------------------------------

theorem nodup_of_dependencies {names : List Bytes} (h : c.dependencies = .ok names) :
    names.Nodup := by
  simp only [dependencies, Result.bind_ok_iff, Result.pure_ok_iff] at h
  obtain ⟨self, _, types, _, rfl⟩ := h
  exact nodup_distinctFrom _ _

theorem dependencyKinds_ok_iff :
    c.dependencyKinds policy = .ok found ↔ ∃ names, c.dependencies = .ok names ∧
      match policy with
      | .strict => names.map (fun name => (name, .hard)) = found
      | .structural => ∃ first, c.structuralNames = .ok first ∧
          names.map (fun name => (name, if name ∈ first then .hard else .soft)) = found := by
  unfold dependencyKinds
  cases policy with
  | strict => simp only [Result.bind_ok_iff, Result.pure_ok_iff]
  | structural => simp only [Result.bind_ok_iff, Result.pure_ok_iff]

theorem dependencies_of_dependencyKinds (h : c.dependencyKinds policy = .ok found) :
    c.dependencies = .ok (found.map Prod.fst) := by
  obtain ⟨names, hnames, hkinds⟩ := dependencyKinds_ok_iff.mp h
  rw [hnames]
  cases policy with
  | strict =>
    dsimp only at hkinds
    simp [← hkinds, Function.comp_def]
  | structural =>
    obtain ⟨first, _, rfl⟩ := hkinds
    simp [Function.comp_def]

end ClassFile

namespace Collect

variable {load : Bytes → Result ClassFile} {policy : EdgePolicy} {main name : Bytes}

/-- A loader that writes down the names it is asked for. -/
def recorded (load : Bytes → Result ClassFile) (name : Bytes) :
    StateM (List Bytes) (Result ClassFile) := do
  modify (· ++ [name])
  return load name

/-- The dependencies of the class of a name; none where they cannot be had. -/
def dependenciesOf (load : Bytes → Result ClassFile) (name : Bytes) : List Bytes :=
  (load name >>= ClassFile.dependencies).toOption.getD []

def Collectable (load : Bytes → Result ClassFile) (policy : EdgePolicy) (name : Bytes) : Prop :=
  ∃ c, load name = .ok c ∧ (∃ names, c.dependencies = .ok names) ∧
    (policy = .structural → ∃ names, c.structuralNames = .ok names)

inductive FailsWith (load : Bytes → Result ClassFile) (policy : EdgePolicy) (name : Bytes) :
    Error → Prop where
  | load {cause : Error} : load name = .error cause →
      FailsWith load policy name (notLoaded name cause)
  | dependencies {c : ClassFile} {cause : Error} : load name = .ok c →
      c.dependencies = .error cause → FailsWith load policy name (cause.withClass .collect name)
  | structuralNames {c : ClassFile} {names : List Bytes} {cause : Error} : load name = .ok c →
      c.dependencies = .ok names → policy = .structural → c.structuralNames = .error cause →
      FailsWith load policy name (cause.withClass .collect name)

-- ---------------------------------------------------------------------------
-- One class
-- ---------------------------------------------------------------------------

def follow (load : Bytes → Result ClassFile) (policy : EdgePolicy) (name : Bytes) (s : State) :
    Result State :=
  match load name with
  | .error e => .error (notLoaded name e)
  | .ok c => scan policy name s c

def edgesOf (load : Bytes → Result ClassFile) (policy : EdgePolicy) (name : Bytes) : List Edge :=
  ((load name >>= (·.dependencyKinds policy)).toOption.getD []).map fun found =>
    { source := name, target := found.1, kind := found.2 }

theorem source_of_mem_edgesOf {e : Edge} (h : e ∈ edgesOf load policy name) : e.source = name := by
  obtain ⟨d, _, rfl⟩ := List.mem_map.mp h
  rfl

theorem collectable_of_dependencyKinds {c : ClassFile} {found : List (Bytes × EdgeKind)}
    (hload : load name = .ok c) (hfound : c.dependencyKinds policy = .ok found) :
    Collectable load policy name := by
  obtain ⟨names, hnames, hkinds⟩ := ClassFile.dependencyKinds_ok_iff.mp hfound
  refine ⟨c, hload, ⟨names, hnames⟩, ?_⟩
  rintro rfl
  obtain ⟨first, hfirst, _⟩ := hkinds
  exact ⟨first, hfirst⟩

theorem failsWith_of_dependencyKinds {c : ClassFile} {cause : Error} (hload : load name = .ok c)
    (hcause : c.dependencyKinds policy = .error cause) :
    FailsWith load policy name (cause.withClass .collect name) := by
  cases hnames : c.dependencies with
  | error cause' =>
    rw [ClassFile.dependencyKinds, hnames] at hcause
    cases hcause
    exact .dependencies hload hnames
  | ok names =>
    rw [ClassFile.dependencyKinds, hnames] at hcause
    cases policy with
    | strict => cases hcause
    | structural =>
      cases hfirst : c.structuralNames with
      | error cause' =>
        simp only [bind, Except.bind, hfirst] at hcause
        cases hcause
        exact .structuralNames hload hnames rfl hfirst
      | ok first =>
        simp only [bind, Except.bind, hfirst] at hcause
        cases hcause

theorem FailsWith.not_collectable {e : Error} (h : FailsWith load policy name e) :
    ¬ Collectable load policy name := by
  rintro ⟨c, hload, ⟨names, hnames⟩, hstructural⟩
  cases h with
  | load hfails => simp [hload] at hfails
  | dependencies hload' hfails =>
    cases hload.symm.trans hload'
    simp [hnames] at hfails
  | structuralNames hload' _ hpolicy hfails =>
    cases hload.symm.trans hload'
    obtain ⟨first, hfirst⟩ := hstructural hpolicy
    simp [hfirst] at hfails

theorem follow_ok {s s' : State} (h : follow load policy name s = .ok s') :
    ∃ c found, load name = .ok c ∧ c.dependencyKinds policy = .ok found ∧
      s' = found.foldl (visit name) s := by
  unfold follow at h
  split at h
  · cases h
  · rename_i c hload
    simp only [scan, Result.bind_ok_iff, Result.mapError_ok_iff, Result.pure_ok_iff] at h
    obtain ⟨found, hfound, rfl⟩ := h
    exact ⟨c, found, hload, hfound, rfl⟩

theorem follow_error {s : State} {e : Error} (h : follow load policy name s = .error e) :
    FailsWith load policy name e := by
  unfold follow at h
  split at h
  · rename_i hload
    cases h
    exact .load hload
  · rename_i c hload
    cases hkinds : c.dependencyKinds policy with
    | ok found =>
      rw [scan, hkinds] at h
      cases h
    | error cause =>
      rw [scan, hkinds] at h
      cases h
      exact failsWith_of_dependencyKinds hload hkinds

-- ---------------------------------------------------------------------------
-- Visiting dependencies
-- ---------------------------------------------------------------------------

section

variable {s : State} {found : List (Bytes × EdgeKind)}

/-- What is visited are the nodes of the graph. -/
def State.InStep (s : State) : Prop := s.visited = s.graph.nodes

theorem visit_eq {d : Bytes × EdgeKind} (hs : s.InStep) (hname : name ∈ s.graph.nodes)
    (hnew : (name, d.1) ∉ s.graph.edges.map Edge.ends) :
    visit name s d = {
      graph := {
        nodes := s.graph.nodes ++ ClassFile.distinctFrom s.graph.nodes [d.1]
        edges := s.graph.edges ++ [⟨name, d.1, d.2⟩] }
      visited := s.graph.nodes ++ ClassFile.distinctFrom s.graph.nodes [d.1]
      queue := s.queue ++ ClassFile.distinctFrom s.graph.nodes [d.1] } := by
  have hedges : Graph.addTo s.graph.edges ⟨name, d.1, d.2⟩ = s.graph.edges ++ [⟨name, d.1, d.2⟩] :=
    Graph.addTo_of_notMem hnew
  rw [visit, Graph.addEdge, Graph.addNode_of_mem hname, hs]
  by_cases h : d.1 ∈ s.graph.nodes
  · simp [Graph.addNode_of_mem h, ClassFile.distinctFrom, h, hedges]
  · simp [Graph.addNode_nodes_of_notMem h, ClassFile.distinctFrom, h, hedges]

theorem foldl_visit_eq (hs : s.InStep) (hname : name ∈ s.graph.nodes)
    (hfound : (found.map Prod.fst).Nodup)
    (hnew : ∀ d ∈ found.map Prod.fst, (name, d) ∉ s.graph.edges.map Edge.ends) :
    found.foldl (visit name) s = {
      graph := {
        nodes := s.graph.nodes ++ ClassFile.distinctFrom s.graph.nodes (found.map Prod.fst)
        edges := s.graph.edges ++ found.map fun d => ⟨name, d.1, d.2⟩ }
      visited := s.graph.nodes ++ ClassFile.distinctFrom s.graph.nodes (found.map Prod.fst)
      queue := s.queue ++ ClassFile.distinctFrom s.graph.nodes (found.map Prod.fst) } := by
  induction found generalizing s with
  | nil =>
    obtain ⟨graph, visited, queue⟩ := s
    obtain rfl : visited = graph.nodes := hs
    simp [ClassFile.distinctFrom]
  | cons d rest ih =>
    rw [List.map_cons, List.nodup_cons] at hfound
    rw [List.map_cons, List.forall_mem_cons] at hnew
    have hfirst := visit_eq hs hname hnew.1
    have hstep : (visit name s d).InStep := by rw [hfirst]; rfl
    have hrest : ∀ t ∈ rest.map Prod.fst,
        (name, t) ∉ (visit name s d).graph.edges.map Edge.ends := by
      intro t ht
      rw [hfirst, List.map_append, List.mem_append, not_or]
      refine ⟨hnew.2 t ht, fun hmem => ?_⟩
      have heq : t = d.1 := by simpa [Edge.ends] using hmem
      exact hfound.1 (heq ▸ ht)
    have hsplit := ClassFile.distinctFrom_append s.graph.nodes [d.1] (rest.map Prod.fst)
    rw [List.singleton_append] at hsplit
    rw [List.foldl_cons, ih hstep (by simp [hfirst, hname]) hfound.2 hrest, hfirst, List.map_cons,
      hsplit]
    simp [List.append_assoc]

theorem built_foldl_visit (h : s.graph.Built) : (found.foldl (visit name) s).graph.Built := by
  induction found generalizing s with
  | nil => exact h
  | cons d rest ih =>
    refine ih ?_
    rw [visit]
    split_ifs <;> exact .addEdge name d.1 d.2 h

end

-- ---------------------------------------------------------------------------
-- The whole run
-- ---------------------------------------------------------------------------

/-- Where collecting stands once it has followed the classes of `done`. -/
structure Progress (load : Bytes → Result ClassFile) (policy : EdgePolicy) (main : Bytes)
    (done : List Bytes) (s : State) : Prop where
  built : s.graph.Built
  inStep : s.InStep
  nodes_eq : s.graph.nodes = done ++ s.queue
  found : s.graph.nodes = followed (dependenciesOf load) main done
  breadthFirst : ∃ rounds, s.graph.nodes <+: discovered (dependenciesOf load) main rounds
  edges_eq : s.graph.edges = done.flatMap (edgesOf load policy)
  collectable : ∀ name ∈ done, Collectable load policy name

theorem progress_start (load : Bytes → Result ClassFile) (policy : EdgePolicy) (main : Bytes) :
    Progress load policy main []
      { graph := Graph.empty.addNode main, visited := [main], queue := [main] } where
  built := .addNode main .empty
  inStep := rfl
  nodes_eq := rfl
  found := by simp [followed_eq, Graph.addNode, Graph.empty, ClassFile.distinctFrom]
  breadthFirst := ⟨1, by simp [discovered, followed_eq, Graph.addNode, Graph.empty]⟩
  edges_eq := rfl
  collectable := by simp

theorem Progress.follow {done visited queue : List Bytes} {graph : Graph} {s' : State}
    (h : Progress load policy main done ⟨graph, visited, name :: queue⟩)
    (hfollow : follow load policy name ⟨graph, visited, queue⟩ = .ok s') :
    Progress load policy main (done ++ [name]) s' := by
  obtain ⟨c, found, hload, hfound, rfl⟩ := follow_ok hfollow
  have hnames := ClassFile.dependencies_of_dependencyKinds hfound
  have hnext : dependenciesOf load name = found.map Prod.fst := by
    simp [dependenciesOf, hload, hnames, bind, Except.bind, Except.toOption]
  have hown : edgesOf load policy name = found.map fun d => ⟨name, d.1, d.2⟩ := by
    simp [edgesOf, hload, hfound, bind, Except.bind, Except.toOption]
  have hsplit : graph.nodes = done ++ name :: queue := h.nodes_eq
  have hedges : graph.edges = done.flatMap (edgesOf load policy) := h.edges_eq
  have hdone : name ∉ done := by
    have hnodup := h.built.wellFormed.nodes_nodup
    rw [h.nodes_eq] at hnodup
    exact fun hin => (List.nodup_append.mp hnodup).2.2 name hin name (by simp) rfl
  -- The edges so far start at classes that were followed before.
  have hnew : ∀ d ∈ found.map Prod.fst, (name, d) ∉ graph.edges.map Edge.ends := by
    intro d _ hmem
    obtain ⟨e, he, hends⟩ := List.mem_map.mp hmem
    obtain ⟨n, hn, hown⟩ := List.mem_flatMap.mp (hedges ▸ he)
    have hsource : e.source = name := congrArg Prod.fst hends
    exact hdone (hsource ▸ source_of_mem_edgesOf hown ▸ hn)
  have hstep : State.InStep ⟨graph, visited, queue⟩ := h.inStep
  have heq := foldl_visit_eq hstep (by simp [hsplit])
    (ClassFile.nodup_of_dependencies hnames) hnew
  have hnodes : (found.foldl (visit name) ⟨graph, visited, queue⟩).graph.nodes =
      followed (dependenciesOf load) main (done ++ [name]) := by
    rw [followed_append, ← h.found, heq]
    simp [hnext]
  refine ⟨built_foldl_visit h.built, ?_, ?_, hnodes, ?_, ?_, ?_⟩
  · rw [heq]
    rfl
  · rw [heq]
    simp [hsplit]
  · obtain ⟨rounds, hrounds⟩ := h.breadthFirst
    refine ⟨rounds + 1, hnodes ▸ followed_prefix (List.IsPrefix.trans ?_ hrounds)⟩
    exact ⟨queue, by simp [hsplit]⟩
  · rw [heq, List.flatMap_append]
    simp [hedges, hown]
  · intro n hn
    rcases List.mem_append.mp hn with hold | hlast
    · exact h.collectable n hold
    · rw [List.mem_singleton.mp hlast]
      exact collectable_of_dependencyKinds hload hfound

theorem run_recorded (load : Bytes → Result ClassFile) (policy : EdgePolicy) (left : Nat)
    (graph : Graph) (name : Bytes) (visited queue asked : List Bytes) :
    (run (recorded load) policy (left + 1) ⟨graph, visited, name :: queue⟩).run asked =
      match Collect.follow load policy name ⟨graph, visited, queue⟩ with
      | .error e => (.error e, asked ++ [name])
      | .ok s => (run (recorded load) policy left s).run (asked ++ [name]) := by
  simp only [run, recorded, Collect.follow, StateT.run_bind, StateT.run_modify, bind_assoc,
    pure_bind]
  cases load name with
  | error e => rfl
  | ok c =>
    dsimp only
    cases scan policy name ⟨graph, visited, queue⟩ c <;> rfl

/-- How collecting ends: with the whole graph, or at the first class that is at fault or beyond
the limit. -/
def Ended (load : Bytes → Result ClassFile) (policy : EdgePolicy) (main : Bytes) (limit : Nat) :
    Result Graph × List Bytes → Prop
  | (.ok g, asked) => asked = g.nodes ∧ Progress load policy main g.nodes ⟨g, g.nodes, []⟩
  | (.error e, asked) => ∃ done name visited queue graph,
      Progress load policy main done ⟨graph, visited, name :: queue⟩ ∧
        (FailsWith load policy name e ∧ asked = done ++ [name] ∨ limit ≤ done.length)

theorem Progress.ended_of_nil {done visited : List Bytes} {graph : Graph} {limit : Nat}
    (h : Progress load policy main done ⟨graph, visited, []⟩) :
    Ended load policy main limit (.ok graph, done) := by
  have hdone : graph.nodes = done := by simpa using h.nodes_eq
  obtain rfl : visited = graph.nodes := h.inStep
  exact ⟨hdone.symm, hdone ▸ h⟩

theorem run_ended {done : List Bytes} {s : State} (left : Nat)
    (h : Progress load policy main done s) :
    Ended load policy main (done.length + left) ((run (recorded load) policy left s).run done) := by
  obtain ⟨graph, visited, queue⟩ := s
  induction left generalizing done graph visited queue with
  | zero =>
    cases queue with
    | nil => exact h.ended_of_nil
    | cons name queue => exact ⟨done, name, visited, queue, graph, h, .inr (Nat.le_refl _)⟩
  | succ left ih =>
    cases queue with
    | nil => exact h.ended_of_nil
    | cons name queue =>
      rw [run_recorded]
      cases hfollow : Collect.follow load policy name ⟨graph, visited, queue⟩ with
      | error e => exact ⟨done, name, visited, queue, graph, h, .inl ⟨follow_error hfollow, rfl⟩⟩
      | ok s =>
        have hrest := ih s.graph s.visited s.queue (h.follow hfollow)
        rw [List.length_append, List.length_singleton] at hrest
        rwa [Nat.add_comm left 1, ← Nat.add_assoc]

theorem collect_ended (load : Bytes → Result ClassFile) (policy : EdgePolicy) (limit : Nat)
    (main : Bytes) :
    Ended load policy main (limit + 1)
      ((collect (some (recorded load)) policy limit main).run []) := by
  have h := run_ended (limit + 1) (progress_start load policy main)
  rwa [List.length_nil, Nat.zero_add] at h

-- ---------------------------------------------------------------------------
-- Finitely many classes
-- ---------------------------------------------------------------------------

theorem map_ends_edgesOf (h : Collectable load policy name) :
    (edgesOf load policy name).map Edge.ends = (dependenciesOf load name).map (name, ·) := by
  obtain ⟨c, hload, ⟨names, hnames⟩, hstructural⟩ := h
  cases policy with
  | strict =>
    simp [edgesOf, dependenciesOf, hload, hnames, ClassFile.dependencyKinds, bind, Except.bind,
      pure, Except.pure, Except.toOption, Edge.ends]
  | structural =>
    obtain ⟨first, hfirst⟩ := hstructural rfl
    simp [edgesOf, dependenciesOf, hload, hnames, hfirst, ClassFile.dependencyKinds, bind,
      Except.bind, pure, Except.pure, Except.toOption, Edge.ends]

section

variable (hfinite : {name | ReachedBy (dependenciesOf load) main name}.Finite)

include hfinite

theorem Progress.nodes_prefix {done : List Bytes} {st : State}
    (h : Progress load policy main done st) :
    st.graph.nodes <+: discovered (dependenciesOf load) main
      {name | ReachedBy (dependenciesOf load) main name}.ncard := by
  obtain ⟨rounds, hrounds⟩ := h.breadthFirst
  exact hrounds.trans (discovered_prefix_ncard hfinite rounds)

theorem Progress.nodes_eq_discovered {g : Graph}
    (h : Progress load policy main g.nodes ⟨g, g.nodes, []⟩) :
    g.nodes = discovered (dependenciesOf load) main
      {name | ReachedBy (dependenciesOf load) main name}.ncard := by
  refine (h.nodes_prefix hfinite).eq_of_length_le ?_
  have hall : discovered (dependenciesOf load) main
      {name | ReachedBy (dependenciesOf load) main name}.ncard ⊆ g.nodes :=
    fun name hname => mem_of_reachedBy h.found.symm (reachedBy_of_mem_discovered hname)
  exact (List.subperm_of_subset (nodup_discovered _ _ _) hall).length_le

end

theorem collect_breadth_first (load : Bytes → Result ClassFile) (policy : EdgePolicy)
    (main : Bytes) (limit : Nat)
    (hfinite : {name | ReachedBy (dependenciesOf load) main name}.Finite)
    (hlimit : {name | ReachedBy (dependenciesOf load) main name}.ncard ≤ limit + 1) :
    ∃ order result asked,
      (collect (some (recorded load)) policy limit main).run [] = (result, asked) ∧
      order = discovered (dependenciesOf load) main
        {name | ReachedBy (dependenciesOf load) main name}.ncard ∧
      order.Nodup ∧ (∀ name, name ∈ order ↔ ReachedBy (dependenciesOf load) main name) ∧
      ((∃ g, result = .ok g) ↔
        ∀ name, ReachedBy (dependenciesOf load) main name → Collectable load policy name) ∧
      (∀ g, result = .ok g → g.nodes = order ∧
        g.edges.map Edge.ends =
          order.flatMap (fun name => (dependenciesOf load name).map (name, ·)) ∧
        (g.edges.map Edge.ends).Nodup ∧ asked = order) ∧
      ∀ e, result = .error e → ∃ before name behind, order = before ++ name :: behind ∧
        (∀ earlier ∈ before, Collectable load policy earlier) ∧
        FailsWith load policy name e ∧ asked = before ++ [name] := by
  set order := discovered (dependenciesOf load) main
    {name | ReachedBy (dependenciesOf load) main name}.ncard with horder
  have hmem : ∀ name, name ∈ order ↔ ReachedBy (dependenciesOf load) main name :=
    fun name => mem_discovered_ncard hfinite
  have hended := collect_ended load policy limit main
  rcases hrun : (collect (some (recorded load)) policy limit main).run [] with ⟨result, asked⟩
  rw [hrun] at hended
  refine ⟨order, result, asked, rfl, rfl, nodup_discovered _ _ _, hmem, ?_⟩
  cases result with
  | ok g =>
    obtain ⟨rfl, hprogress⟩ := hended
    have hnodes : g.nodes = order := hprogress.nodes_eq_discovered hfinite
    have hcollectable : ∀ name ∈ order, Collectable load policy name :=
      hnodes ▸ hprogress.collectable
    refine ⟨⟨fun _ name hname => hcollectable name ((hmem name).mpr hname), fun _ => ⟨g, rfl⟩⟩,
      ?_, by simp⟩
    rintro g ⟨⟩
    refine ⟨hnodes, ?_, hprogress.built.wellFormed.ends_nodup, hnodes⟩
    rw [hprogress.edges_eq, hnodes, List.map_flatMap]
    exact List.flatMap_congr fun name hname => map_ends_edgesOf (hcollectable name hname)
  | error e =>
    obtain ⟨done, name, visited, queue, graph, hprogress, hfails⟩ := hended
    have hbegins : done ++ name :: queue <+: order :=
      hprogress.nodes_eq ▸ hprogress.nodes_prefix hfinite
    obtain ⟨behind, hbehind⟩ := hbegins
    rcases hfails with ⟨hfails, rfl⟩ | hlong
    · have hname : ReachedBy (dependenciesOf load) main name := by
        rw [← hmem, ← hbehind]
        simp
      refine ⟨⟨by simp, fun hall => absurd (hall name hname) hfails.not_collectable⟩, by simp, ?_⟩
      rintro e ⟨⟩
      exact ⟨done, name, queue ++ behind, by simp [← hbehind], hprogress.collectable, hfails, rfl⟩
    · have hlength : order.length ≤ limit + 1 := (length_discovered_le hfinite _).trans hlimit
      simp only [← hbehind, List.length_append, List.length_cons] at hlength
      omega

def referring (own other : Bytes) : ClassFile where
  magic := classMagic
  minor := 0
  major := 52
  pool := ⟨[none, some (.utf8 own), some (.classRef 1), some (.utf8 other), some (.classRef 3)]⟩
  access := AccessFlags.isPublic
  thisClass := 2
  superClass := 0
  interfaces := []
  fields := []
  methods := []
  attributes := []

def mutualClasses (name : Bytes) : Result ClassFile :=
  if name = text "A" then .ok (referring (text "A") (text "B"))
  else if name = text "B" then .ok (referring (text "B") (text "A"))
  else .error (.notFound .load (text "class") name)

theorem collect_breadth_first_mutual :
    {name | ReachedBy (dependenciesOf mutualClasses) (text "A") name}.Finite ∧
      {name | ReachedBy (dependenciesOf mutualClasses) (text "A") name}.ncard ≤ 1 + 1 ∧
      ∃ g,
        (collect (some (recorded mutualClasses)) .strict 1 (text "A")).run [] = (.ok g, g.nodes) ∧
        g.nodes = [text "A", text "B"] ∧
        ∀ name, name ∈ g.nodes ↔ ReachedBy (dependenciesOf mutualClasses) (text "A") name := by
  have hclosed : followed (dependenciesOf mutualClasses) (text "A") [text "A", text "B"] =
      [text "A", text "B"] := by decide
  have hsub : {name | ReachedBy (dependenciesOf mutualClasses) (text "A") name} ⊆
      ({text "A", text "B"} : Set Bytes) := by
    intro name hname
    simpa using mem_of_reachedBy hclosed hname
  have hfinite := Set.Finite.subset (Set.toFinite _) hsub
  have hdistinct : text "A" ≠ text "B" := by decide
  have hcard := (Set.ncard_le_ncard hsub).trans (Set.ncard_pair hdistinct).le
  obtain ⟨order, result, asked, hrun, -, -, hmem, -, hok, -⟩ :=
    collect_breadth_first mutualClasses .strict (text "A") 1 hfinite hcard
  have hresult :
      ((collect (some (recorded mutualClasses)) .strict 1 (text "A")).run []).1.map Graph.nodes =
        .ok [text "A", text "B"] := by
    decide
  rw [hrun] at hresult
  cases result with
  | error e => cases hresult
  | ok g =>
    obtain ⟨hnodes, -, -, rfl⟩ := hok g rfl
    refine ⟨hfinite, hcard, g, by rw [hrun, hnodes], Except.ok.inj hresult, ?_⟩
    rwa [hnodes]

end Collect
end ClassHeader
