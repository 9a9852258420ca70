import ClassHeader.Proofs.Graph.Additions

/-!
# Graphs with tables

A graph that finds nodes by a table of numbers, edges by a table of pairs of numbers,
and the edges that leave a node by a list of their places. An edge that becomes hard is
changed where it stands. `Tables.Finds` says that the tables fit to a graph without
tables; `Graph.answers_of_additions` says what both answer after any additions.
-/

namespace ClassHeader.Graph

structure Tables where
  /-- The number of each node. -/
  numbers : List (Bytes × Nat)
  nodes : List Bytes
  /-- The place of each edge, under the numbers of what it joins. -/
  places : List ((Nat × Nat) × Nat)
  edges : List Edge
  /-- For each node the places of the edges that leave it. -/
  leaving : List (List Nat)

namespace Tables

def empty : Tables := ⟨[], [], [], [], []⟩

def enter (t : Tables) (name : Bytes) : Nat × Tables :=
  match t.numbers.lookup name with
  | some n => (n, t)
  | none => (t.nodes.length, { t with
      numbers := (name, t.nodes.length) :: t.numbers
      nodes := t.nodes ++ [name]
      leaving := t.leaving ++ [[]] })

/-- Joins two nodes, or makes the edge hard that joins them already. -/
def join (t : Tables) (m n : Nat) (e : Edge) : Tables :=
  match t.places.lookup (m, n) with
  | some i =>
    if e.kind = .hard then { t with edges := t.edges.modify i fun f => { f with kind := .hard } }
    else t
  | none => { t with
      places := ((m, n), t.edges.length) :: t.places
      edges := t.edges ++ [e]
      leaving := t.leaving.modify m (· ++ [t.edges.length]) }

def add (t : Tables) : Addition → Tables
  | .node name => (t.enter name).2
  | .edge source target kind =>
    let (m, t) := t.enter source
    let (n, t) := t.enter target
    t.join m n { source, target, kind }

def ofAdditions (additions : List Addition) : Tables := additions.foldl add empty

/-- The edges at the places noted for a node; nothing if one of the places is outside. -/
def edgesFrom? (t : Tables) (name : Bytes) : Option (List Edge) :=
  match t.numbers.lookup name with
  | none => some []
  | some n => do (← t.leaving[n]?).mapM (t.edges[·]?)

def dependents (t : Tables) (name : Bytes) : List Bytes :=
  t.edges.foldl (fun found e => if e.target = name then found ++ [e.source] else found) []

end Tables

-- ---------------------------------------------------------------------------
-- Places of edges
-- ---------------------------------------------------------------------------

def placesOf (sources : List Bytes) (name : Bytes) : List Nat :=
  (sources.zipIdx.filter (·.1 = name)).map (·.2)

theorem placesOf_eq_nil {sources : List Bytes} {name : Bytes} (h : name ∉ sources) :
    placesOf sources name = [] := by
  rw [placesOf, List.map_eq_nil_iff, List.filter_eq_nil_iff]
  rintro ⟨source, i⟩ hmem
  have hsource : source ∈ sources := (List.mem_zipIdx' hmem).2 ▸ List.getElem_mem _
  simp only [decide_eq_true_eq]
  rintro rfl
  exact h hsource

theorem placesOf_concat (sources : List Bytes) (source name : Bytes) :
    placesOf (sources ++ [source]) name =
      placesOf sources name ++ if source = name then [sources.length] else [] := by
  unfold placesOf
  rw [List.zipIdx_append, List.filter_append, List.map_append]
  split_ifs with h <;> simp [h]

theorem mapM_placesOf (edges : List Edge) (name : Bytes) :
    (placesOf (edges.map (·.source)) name).mapM (edges[·]?) =
      some (edges.filter (·.source = name)) := by
  have hall : ∀ found : List (Edge × Nat), (∀ x ∈ found, edges[x.2]? = some x.1) →
      (found.map (·.2)).mapM (edges[·]?) = some (found.map (·.1)) := by
    intro found hfound
    induction found with
    | nil => rfl
    | cons x found ih =>
      rw [List.forall_mem_cons] at hfound
      rw [List.map_cons, List.mapM_cons, hfound.1, ih hfound.2]
      rfl
  have hplaces : placesOf (edges.map (·.source)) name =
      (edges.zipIdx.filter (·.1.source = name)).map (·.2) := by
    simp [placesOf, List.zipIdx_map, List.filter_map, Function.comp_def]
  have hedges : (edges.zipIdx.filter (·.1.source = name)).map (·.1) =
      edges.filter (·.source = name) := by
    conv_rhs => rw [← List.zipIdx_map_fst 0 edges, List.filter_map]
    rfl
  rw [hplaces, hall _ fun x hx => ?_, hedges]
  exact List.mem_zipIdx_iff_getElem?.mp (List.mem_of_mem_filter hx)

def hardenAt (edges : List Edge) (i : Nat) : List Edge :=
  edges.modify i fun e => { e with kind := .hard }

theorem map_hardenAt {β : Type} {f : Edge → β} (hf : ∀ e : Edge, f { e with kind := .hard } = f e)
    (edges : List Edge) (i : Nat) : (hardenAt edges i).map f = edges.map f := by
  refine List.ext_getElem? fun j => ?_
  rw [hardenAt, List.getElem?_map, List.getElem?_modify, List.getElem?_map]
  cases edges[j]? with
  | none => rfl
  | some e => by_cases hij : i = j <;> simp [hij, hf]

theorem addTo_of_place {edges : List Edge} {e : Edge} {i : Nat}
    (hnodup : (edges.map Edge.ends).Nodup) (hi : (edges.map Edge.ends)[i]? = some e.ends) :
    addTo edges e = if e.kind = .hard then hardenAt edges i else edges := by
  rw [addTo_of_mem hnodup (List.mem_of_getElem? hi)]
  split_ifs with hkind
  · refine List.ext_getElem? fun j => ?_
    rw [hardenAt, List.getElem?_map, List.getElem?_modify]
    cases hj : edges[j]? with
    | none => rfl
    | some f =>
      have hends : (edges.map Edge.ends)[j]? = some f.ends := by
        rw [List.getElem?_map, hj, Option.map_some]
      -- The pair stands at the one place only.
      have hplace : f.ends = e.ends ↔ i = j := by
        constructor
        · exact fun hf => (List.getElem?_inj (List.getElem?_eq_some_iff.mp hi).1 hnodup).mp
            (hi.trans (hf ▸ hends).symm)
        · rintro rfl
          exact Option.some.inj (hends.symm.trans hi)
      by_cases hij : i = j <;> simp [hplace, hkind, hij]
  · simp [hkind]

namespace Tables

variable {t : Tables} {g : Graph}

-- ---------------------------------------------------------------------------
-- Tables that fit to a graph
-- ---------------------------------------------------------------------------

structure Finds (t : Tables) (g : Graph) : Prop where
  nodes_eq : t.nodes = g.nodes
  edges_eq : t.edges = g.edges
  number : ∀ (name : Bytes) (n : Nat), t.numbers.lookup name = some n ↔ g.nodes[n]? = some name
  place : ∀ m n i : Nat, t.places.lookup (m, n) = some i ↔
    ∃ ends, (g.edges.map Edge.ends)[i]? = some ends ∧
      g.nodes[m]? = some ends.1 ∧ g.nodes[n]? = some ends.2
  length_leaving : t.leaving.length = g.nodes.length
  leaving : ∀ (n : Nat) (name : Bytes), g.nodes[n]? = some name →
    t.leaving[n]? = some (placesOf (g.edges.map (·.source)) name)

theorem finds_empty : Finds empty Graph.empty := by
  constructor <;> simp [empty, Graph.empty]

theorem lookup_cons_ite {α β : Type} [BEq α] [LawfulBEq α] [DecidableEq α] (a k : α) (b : β)
    (table : List (α × β)) :
    ((k, b) :: table).lookup a = if a = k then some b else table.lookup a := by
  rw [List.lookup_cons]
  by_cases h : a = k
  · simp [h]
  · rw [if_neg h, beq_false_of_ne h]

theorem getElem?_concat_iff {α : Type} {as : List α} {a b : α} {n : Nat} :
    (as ++ [a])[n]? = some b ↔ as[n]? = some b ∨ (n = as.length ∧ a = b) := by
  rcases Nat.lt_trichotomy n as.length with h | rfl | h
  · rw [List.getElem?_append_left h]
    simp [h.ne]
  · simp
  · have hlen : (as ++ [a]).length ≤ n := by
      rw [List.length_append, List.length_singleton]
      exact h
    rw [List.getElem?_eq_none hlen, List.getElem?_eq_none h.le]
    simp [h.ne']

theorem getElem?_addNode {n : Nat} {name : Bytes} (other : Bytes) (h : g.nodes[n]? = some name) :
    (g.addNode other).nodes[n]? = some name := by
  by_cases hother : other ∈ g.nodes
  · rwa [addNode_of_mem hother]
  · rw [addNode_nodes_of_notMem hother, getElem?_concat_iff]
    exact .inl h

/-- Entering a name adds the node, and the number found is its place among the nodes. -/
theorem Finds.enter (h : t.Finds g) (hg : g.WellFormed) (name : Bytes) :
    (t.enter name).2.Finds (g.addNode name) ∧
      (g.addNode name).nodes[(t.enter name).1]? = some name := by
  cases hlookup : t.numbers.lookup name with
  | some n =>
    have hn := (h.number name n).mp hlookup
    rw [addNode_of_mem (List.mem_of_getElem? hn), Tables.enter, hlookup]
    exact ⟨h, hn⟩
  | none =>
    have hnew : name ∉ g.nodes := fun hmem => by
      obtain ⟨n, hn⟩ := List.getElem?_of_mem hmem
      rw [(h.number name n).mpr hn] at hlookup
      cases hlookup
    have hnodes := addNode_nodes_of_notMem hnew
    have hlen : t.nodes.length = g.nodes.length := congrArg List.length h.nodes_eq
    have hold : ∀ {n : Nat} {other : Bytes}, other ∈ g.nodes →
        ((g.addNode name).nodes[n]? = some other ↔ g.nodes[n]? = some other) := by
      intro n other hother
      rw [hnodes, getElem?_concat_iff, or_iff_left_iff_imp]
      rintro ⟨-, rfl⟩
      exact absurd hother hnew
    rw [Tables.enter, hlookup]
    refine ⟨{
      nodes_eq := ?_, edges_eq := ?_, number := ?_, place := ?_, length_leaving := ?_
      leaving := ?_ }, ?_⟩
    · rw [hnodes, ← h.nodes_eq]
    · rw [addNode_edges, ← h.edges_eq]
    · intro other n
      rw [lookup_cons_ite, hnodes, getElem?_concat_iff, hlen]
      split_ifs with hother
      · subst hother
        constructor
        · rintro ⟨⟩
          exact .inr ⟨rfl, rfl⟩
        · rintro (hn | ⟨rfl, -⟩)
          · exact absurd (List.mem_of_getElem? hn) hnew
          · rfl
      · rw [h.number, or_iff_left fun heq => hother heq.2.symm]
    · intro m n i
      rw [h.place, addNode_edges]
      refine exists_congr fun ends => and_congr_right fun hends => ?_
      obtain ⟨e, he, rfl⟩ := List.mem_map.mp (List.mem_of_getElem? hends)
      rw [Edge.ends, hold (hg.source_mem e he), hold (hg.target_mem e he)]
    · rw [hnodes, List.length_append, List.length_append, h.length_leaving]
      rfl
    · intro n other hn
      rw [addNode_edges]
      rw [hnodes, getElem?_concat_iff] at hn
      rw [getElem?_concat_iff]
      rcases hn with hn | ⟨rfl, rfl⟩
      · exact .inl (h.leaving n other hn)
      · refine .inr ⟨h.length_leaving.symm, (placesOf_eq_nil fun hmem => hnew ?_).symm⟩
        obtain ⟨e, he, rfl⟩ := List.mem_map.mp hmem
        exact hg.source_mem e he
    · rw [hnodes, getElem?_concat_iff, hlen]
      exact .inr ⟨rfl, rfl⟩

theorem Finds.join (h : t.Finds g) (hg : g.WellFormed) {m n : Nat} {e : Edge}
    (hm : g.nodes[m]? = some e.source) (hn : g.nodes[n]? = some e.target) :
    (t.join m n e).Finds { g with edges := addTo g.edges e } := by
  have hsame : ∀ {k l : Nat} {name : Bytes}, g.nodes[k]? = some name → g.nodes[l]? = some name →
      k = l := fun hk hl =>
    (List.getElem?_inj (List.getElem?_eq_some_iff.mp hk).1 hg.nodes_nodup).mp (hk.trans hl.symm)
  have hmap : ∀ edges : List Edge, edges.map (·.source) = (edges.map Edge.ends).map Prod.fst :=
    fun edges => by rw [List.map_map]; rfl
  cases hlookup : t.places.lookup (m, n) with
  | some i =>
    obtain ⟨ends, hi, hsource, htarget⟩ := (h.place m n i).mp hlookup
    have hends : ends = e.ends := Prod.ext (Option.some.inj (hsource.symm.trans hm))
      (Option.some.inj (htarget.symm.trans hn))
    rw [addTo_of_place hg.ends_nodup (hends ▸ hi), Tables.join, hlookup]
    dsimp only
    split_ifs
    · have hjoined : (hardenAt g.edges i).map Edge.ends = g.edges.map Edge.ends :=
        map_hardenAt (fun _ => rfl) g.edges i
      exact {
        nodes_eq := h.nodes_eq
        edges_eq := congrArg (hardenAt · i) h.edges_eq
        number := h.number
        place := fun k l j => by rw [hjoined, h.place]
        length_leaving := h.length_leaving
        leaving := fun k name hk => by rw [hmap, hjoined, ← hmap, h.leaving k name hk] }
    · exact h
  | none =>
    have hnew : e.ends ∉ g.edges.map Edge.ends := fun hmem => by
      obtain ⟨i, hi⟩ := List.getElem?_of_mem hmem
      rw [(h.place m n i).mpr ⟨e.ends, hi, hm, hn⟩] at hlookup
      cases hlookup
    have hlen : t.edges.length = g.edges.length := congrArg List.length h.edges_eq
    rw [addTo_of_notMem hnew, Tables.join, hlookup]
    refine {
      nodes_eq := h.nodes_eq, edges_eq := by rw [h.edges_eq], number := h.number
      place := fun k l j => ?_, length_leaving := ?_, leaving := fun k name hk => ?_ }
    · simp only [lookup_cons_ite, List.map_append, List.map_singleton, getElem?_concat_iff,
        List.length_map, hlen]
      split_ifs with hkl
      · obtain ⟨rfl, rfl⟩ := Prod.mk.inj hkl
        constructor
        · rintro ⟨⟩
          exact ⟨e.ends, .inr ⟨rfl, rfl⟩, hm, hn⟩
        · rintro ⟨ends, hends | ⟨rfl, rfl⟩, hsource, htarget⟩
          · rw [(h.place _ _ _).mpr ⟨ends, hends, hsource, htarget⟩] at hlookup
            cases hlookup
          · rfl
      · rw [h.place]
        refine exists_congr fun ends => and_congr_left fun hends => (or_iff_left ?_).symm
        rintro ⟨rfl, rfl⟩
        exact hkl (Prod.ext (hsame hends.1 hm) (hsame hends.2 hn))
    · rw [List.length_modify]
      exact h.length_leaving
    · rw [List.getElem?_modify, h.leaving k name hk, List.map_append, List.map_singleton,
        placesOf_concat, List.length_map, hlen]
      by_cases hmk : m = k
      · have hname : e.source = name := Option.some.inj (hm.symm.trans (hmk ▸ hk))
        simp [hmk, hname]
      · have hname : e.source ≠ name := fun heq => hmk (hsame (heq ▸ hm) hk)
        simp [hmk, hname]

theorem Finds.add (h : t.Finds g) (hg : g.WellFormed) (a : Addition) :
    (t.add a).Finds (g.add a) := by
  cases a with
  | node name => exact (h.enter hg name).1
  | edge source target kind =>
    obtain ⟨hfirst, hm⟩ := h.enter hg source
    obtain ⟨hboth, hn⟩ := hfirst.enter (hg.addNode source) target
    exact hboth.join ((hg.addNode source).addNode target) (getElem?_addNode target hm) hn

theorem finds_ofAdditions (additions : List Addition) :
    (ofAdditions additions).Finds (Graph.ofAdditions additions) := by
  induction additions using List.reverseRecOn with
  | nil => exact finds_empty
  | append_singleton additions a ih =>
    rw [ofAdditions_concat]
    have hstep := ih.add (built_ofAdditions additions).wellFormed a
    rwa [ofAdditions, List.foldl_concat]

theorem Finds.edgesFrom? (h : t.Finds g) (hg : g.WellFormed) (name : Bytes) :
    t.edgesFrom? name = some (g.edgesFrom name) := by
  rw [Tables.edgesFrom?]
  cases hlookup : t.numbers.lookup name with
  | none =>
    have hsource : ∀ e ∈ g.edges, e.source ≠ name := fun e he heq => by
      obtain ⟨n, hn⟩ := List.getElem?_of_mem (heq ▸ hg.source_mem e he)
      rw [(h.number name n).mpr hn] at hlookup
      cases hlookup
    have hnone : g.edgesFrom name = [] :=
      List.filter_eq_nil_iff.mpr fun e he => by simpa using hsource e he
    rw [hnone]
  | some n =>
    have hn := (h.number name n).mp hlookup
    dsimp only
    rw [h.leaving n name hn, h.edges_eq]
    exact mapM_placesOf g.edges name

theorem Finds.dependents (h : t.Finds g) (name : Bytes) :
    t.dependents name = g.dependents name := by
  have hloop : ∀ (edges : List Edge) (found : List Bytes),
      edges.foldl (fun found e => if e.target = name then found ++ [e.source] else found) found =
        found ++ (edges.filter (·.target = name)).map (·.source) := by
    intro edges
    induction edges with
    | nil => simp
    | cons e edges ih =>
      intro found
      rw [List.foldl_cons, ih]
      by_cases he : e.target = name <;> simp [he]
  rw [Tables.dependents, h.edges_eq, hloop]
  rfl

end Tables

/-- The answers of a graph with tables, and of the graph without them, behind any additions. -/
theorem answers_of_additions (additions : List Addition) :
    let g := ofAdditions additions
    let t := Tables.ofAdditions additions
    (t.nodes = g.nodes ∧ g.nodes = (additions.flatMap Addition.names).eraseDups) ∧
    (t.edges = g.edges ∧
      g.edges.map Edge.ends = (additions.filterMap Addition.ends?).eraseDups ∧
      ∀ e ∈ g.edges, e.kind = .hard ↔ .edge e.source e.target .hard ∈ additions) ∧
    (∀ name, t.edgesFrom? name = some (g.edgesFrom name) ∧
      g.edgesFrom name = g.edges.filter (·.source = name)) ∧
    (∀ name, t.dependents name = g.dependents name ∧
      g.dependents name = (g.edges.filter (·.target = name)).map (·.source)) ∧
    ∀ other : List Addition, other.Perm additions →
      (ofAdditions other).nodes.Perm g.nodes ∧ (ofAdditions other).edges.Perm g.edges := by
  have hfinds := Tables.finds_ofAdditions additions
  have hg := (built_ofAdditions additions).wellFormed
  exact ⟨⟨hfinds.nodes_eq, nodes_ofAdditions additions⟩,
    ⟨hfinds.edges_eq, ends_ofAdditions additions, fun _ he => hard_ofAdditions_iff he⟩,
    fun name => ⟨hfinds.edgesFrom? hg name, rfl⟩, fun name => ⟨hfinds.dependents name, rfl⟩,
    fun _ hperm => ⟨nodes_perm_of_perm hperm, edges_perm_of_perm hperm⟩⟩

/-- A reference that becomes hard later, an edge of a node to itself, and a lone node. -/
def mingledAdditions : List Addition :=
  [.edge (text "A") (text "B") .soft, .node (text "C"), .edge (text "B") (text "B") .hard,
    .edge (text "A") (text "C") .soft, .edge (text "A") (text "B") .hard,
    .edge (text "B") (text "B") .soft]

theorem answers_of_additions_mingled :
    mingledAdditions.reverse.Perm mingledAdditions ∧
    (ofAdditions mingledAdditions).nodes = [text "A", text "B", text "C"] ∧
    (Tables.ofAdditions mingledAdditions).edgesFrom? (text "A") =
      some [⟨text "A", text "B", .hard⟩, ⟨text "A", text "C", .soft⟩] ∧
    (Tables.ofAdditions mingledAdditions).dependents (text "B") = [text "A", text "B"] ∧
    (ofAdditions mingledAdditions.reverse).nodes = [text "B", text "A", text "C"] ∧
    (ofAdditions mingledAdditions.reverse).edges.Perm (ofAdditions mingledAdditions).edges := by
  have hperm : mingledAdditions.reverse.Perm mingledAdditions := List.reverse_perm _
  have h := answers_of_additions mingledAdditions
  refine ⟨hperm, by decide, ?_, ?_, by decide, (h.2.2.2.2 _ hperm).2⟩
  · rw [(h.2.2.1 _).1]
    decide
  · rw [(h.2.2.2.1 _).1]
    decide

end ClassHeader.Graph
