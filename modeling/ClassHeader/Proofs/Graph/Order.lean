import ClassHeader.Proofs.Graph.Walk

/-!
# Orders and cycles

A graph has an order exactly when its hard edges have no cycle. Where there is no
order, the fault names a cycle.
-/

namespace ClassHeader.Graph

variable {g : Graph}

theorem idxOf_lt_of_sublist {α : Type} [BEq α] [LawfulBEq α] {a b : α} {l : List α}
    (hl : l.Nodup)
    (h : [a, b].Sublist l) : l.idxOf a < l.idxOf b := by
  have hpair : ([a] ++ [b]).Sublist l := h
  obtain ⟨front, back, rfl, ha, hb⟩ := List.append_sublist_iff.mp hpair
  have hfront : a ∈ front := List.singleton_sublist.mp ha
  have hback : b ∈ back := List.singleton_sublist.mp hb
  have hnot : b ∉ front := fun hmem => (List.nodup_append.mp hl).2.2 b hmem b hback rfl
  rw [List.idxOf_append, List.idxOf_append, if_pos hfront, if_neg hnot]
  have := List.idxOf_lt_length_of_mem hfront
  omega

/-- In an order of all nodes each target of a hard edge comes before the source. -/
theorem topologicalOrder_ok (hg : g.WellFormed) {order : List Bytes}
    (h : g.topologicalOrder = .ok order) :
    order.Perm g.nodes ∧
      ∀ source target, g.HardEdge source target → order.idxOf target < order.idxOf source := by
  have hends := walk_ends hg
  rw [topologicalOrder] at h
  cases hwalk : (List.range g.nodes.length).foldlM g.walkFrom g.start with
  | error e =>
    rw [hwalk] at h
    cases h
  | ok w =>
    rw [hwalk] at h hends
    cases h
    obtain ⟨⟨hsound, hstack⟩, hall⟩ := hends
    have hvisited : w.visited = w.order := by simp [Walk.visited, hstack]
    have hnodup : w.order.Nodup := hvisited ▸ hsound.nodup
    have hbounded : ∀ n ∈ w.order, n < g.nodes.length := hvisited ▸ hsound.bounded
    have hperm : w.order.Perm (List.range g.nodes.length) :=
      (List.perm_ext_iff_of_nodup hnodup List.nodup_range).mpr fun n =>
        ⟨fun hn => List.mem_range.mpr (hbounded n hn), fun hn => hall hn⟩
    have hnames : (w.order.map g.nameOf).Perm g.nodes := by
      have hmap := hperm.map g.nameOf
      rwa [map_nameOf_range] at hmap
    refine ⟨hnames, fun source target hedge => ?_⟩
    have hmem := hg.mem_hardTargets_idxOf hedge
    have hsource : g.nodes.idxOf source ∈ w.order :=
      hall (List.mem_range.mpr (mem_hardTargets.mp hmem).1)
    have hsub := (hsound.ordered _ hsource _ hmem).map g.nameOf
    simp only [List.map_cons, List.map_nil, nameOf_idxOf (hg.source_mem _ hedge),
      nameOf_idxOf (hg.target_mem _ hedge)] at hsub
    exact idxOf_lt_of_sublist (hnames.nodup_iff.mpr hg.nodes_nodup) hsub

theorem topologicalOrder_error (hg : g.WellFormed) {e : Error}
    (h : g.topologicalOrder = .error e) :
    ∃ fault, e = .fault fault ∧ fault.kind = .cycle ∧ g.IsHardCycle fault.members := by
  have hends := walk_ends hg
  rw [topologicalOrder] at h
  cases hwalk : (List.range g.nodes.length).foldlM g.walkFrom g.start with
  | error e' =>
    rw [hwalk] at h hends
    cases h
    exact hends
  | ok w =>
    rw [hwalk] at h
    cases h

theorem IsHardCycle.transGen {members : List Bytes} (h : g.IsHardCycle members) :
    ∃ name, Relation.TransGen g.HardEdge name name := by
  match members, h with
  | [], h => exact absurd h.two_le_length (by simp)
  | [_], h => exact absurd h.two_le_length (by simp)
  | first :: second :: rest, h =>
    obtain ⟨hedge, hchain⟩ := List.isChain_cons_cons.mp h.linked
    have hback := List.relationReflTransGen_of_exists_isChain (second :: rest) hchain (by simp)
    have hlast : (second :: rest).getLast (by simp) = first := by
      have hclosed := h.closed
      rw [List.head?_cons, List.getLast?_cons_cons,
        List.getLast?_eq_getLast_of_ne_nil (by simp)] at hclosed
      exact (Option.some.inj hclosed).symm
    rw [List.head_cons, hlast] at hback
    exact ⟨first, .head' hedge hback⟩

theorem idxOf_lt_of_transGen {order : List Bytes} {source target : Bytes}
    (horder : ∀ source target, g.HardEdge source target →
      order.idxOf target < order.idxOf source)
    (h : Relation.TransGen g.HardEdge source target) :
    order.idxOf target < order.idxOf source := by
  induction h with
  | single hedge => exact horder _ _ hedge
  | tail _ hedge ih => exact (horder _ _ hedge).trans ih

theorem WellFormed.acyclic_of_order (hg : g.WellFormed) {order : List Bytes}
    (horder : g.topologicalOrder = .ok order) (name : Bytes) :
    ¬ Relation.TransGen g.HardEdge name name := fun hloop =>
  Nat.lt_irrefl _ (idxOf_lt_of_transGen (topologicalOrder_ok hg horder).2 hloop)

theorem topologicalOrder_iff_acyclic (h : g.Built) :
    ((∃ order, g.topologicalOrder = .ok order) ↔
      ∀ name, ¬ Relation.TransGen g.HardEdge name name) ∧
    (∀ order, g.topologicalOrder = .ok order → order.Perm g.nodes ∧
      ∀ source target, g.HardEdge source target →
        order.idxOf target < order.idxOf source) ∧
    ∀ e, g.topologicalOrder = .error e →
      ∃ fault, e = .fault fault ∧ fault.kind = .cycle ∧ g.IsHardCycle fault.members := by
  have hg := h.wellFormed
  refine ⟨⟨?_, fun hacyclic => ?_⟩, fun _ => topologicalOrder_ok hg,
    fun _ => topologicalOrder_error hg⟩
  · rintro ⟨order, horder⟩ name hcycle
    exact Nat.lt_irrefl _ (idxOf_lt_of_transGen (topologicalOrder_ok hg horder).2 hcycle)
  · cases hresult : g.topologicalOrder with
    | ok order => exact ⟨order, rfl⟩
    | error e =>
      obtain ⟨fault, _, _, hcycle⟩ := topologicalOrder_error hg hresult
      obtain ⟨name, hloop⟩ := hcycle.transGen
      exact absurd hloop (hacyclic name)

def looseGraph : Graph :=
  ((empty.addEdge (text "A") (text "B") .hard).addEdge (text "B") (text "A") .soft).addEdge
    (text "B") (text "C") .hard

def tightGraph : Graph := looseGraph.addEdge (text "B") (text "A") .hard

theorem topologicalOrder_of_loose_and_tight :
    looseGraph.Built ∧ tightGraph.Built ∧
      looseGraph.topologicalOrder = .ok [text "C", text "B", text "A"] ∧
      (∀ name, ¬ Relation.TransGen looseGraph.HardEdge name name) ∧
      ∃ fault, tightGraph.topologicalOrder = .error (.fault fault) ∧ fault.kind = .cycle ∧
        tightGraph.IsHardCycle fault.members := by
  have hloose : looseGraph.Built := .addEdge _ _ _ (.addEdge _ _ _ (.addEdge _ _ _ .empty))
  have htight : tightGraph.Built := .addEdge _ _ _ hloose
  have horder : looseGraph.topologicalOrder = .ok [text "C", text "B", text "A"] := by decide
  have hfails : ∃ e, tightGraph.topologicalOrder = .error e := ⟨_, rfl⟩
  obtain ⟨e, he⟩ := hfails
  obtain ⟨fault, rfl, hcycle⟩ := (topologicalOrder_iff_acyclic htight).2.2 e he
  exact ⟨hloose, htight, horder, (topologicalOrder_iff_acyclic hloose).1.mp ⟨_, horder⟩, fault,
    he, hcycle⟩

end ClassHeader.Graph
