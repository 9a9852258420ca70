import ClassHeader.Graph.Basic
import Mathlib

/-!
# Built graphs

A graph that nodes and edges were added to, in any order and any number of times,
has each node once, one edge at most for each pair of nodes, and no edge that
starts or ends outside its nodes.
-/

namespace ClassHeader

def Edge.ends (e : Edge) : Bytes × Bytes := (e.source, e.target)

namespace Graph

/-- The graphs that additions lead to, from the empty one on. -/
inductive Built : Graph → Prop where
  | empty : Built Graph.empty
  | addNode {g : Graph} (name : Bytes) : Built g → Built (g.addNode name)
  | addEdge {g : Graph} (source target : Bytes) (kind : EdgeKind) :
      Built g → Built (g.addEdge source target kind)

structure WellFormed (g : Graph) : Prop where
  nodes_nodup : g.nodes.Nodup
  ends_nodup : (g.edges.map Edge.ends).Nodup
  source_mem : ∀ e ∈ g.edges, e.source ∈ g.nodes
  target_mem : ∀ e ∈ g.edges, e.target ∈ g.nodes

-- ---------------------------------------------------------------------------
-- Nodes
-- ---------------------------------------------------------------------------

@[simp] theorem addNode_edges (g : Graph) (name : Bytes) : (g.addNode name).edges = g.edges := by
  unfold addNode
  split <;> rfl

theorem addNode_of_mem {g : Graph} {name : Bytes} (h : name ∈ g.nodes) : g.addNode name = g :=
  if_pos h

theorem addNode_nodes_of_notMem {g : Graph} {name : Bytes} (h : name ∉ g.nodes) :
    (g.addNode name).nodes = g.nodes ++ [name] := by
  rw [addNode, if_neg h]

@[simp] theorem mem_addNode_nodes {g : Graph} {name other : Bytes} :
    other ∈ (g.addNode name).nodes ↔ other ∈ g.nodes ∨ other = name := by
  by_cases h : name ∈ g.nodes
  · rw [addNode_of_mem h]
    exact ⟨.inl, fun hother => hother.elim id fun heq => heq ▸ h⟩
  · simp [addNode_nodes_of_notMem h]

theorem WellFormed.addNode {g : Graph} (hg : g.WellFormed) (name : Bytes) :
    (g.addNode name).WellFormed where
  nodes_nodup := by
    by_cases h : name ∈ g.nodes
    · rw [addNode_of_mem h]
      exact hg.nodes_nodup
    · rw [addNode_nodes_of_notMem h, ← List.concat_eq_append]
      exact hg.nodes_nodup.concat h
  ends_nodup := by
    rw [addNode_edges]
    exact hg.ends_nodup
  source_mem e he := mem_addNode_nodes.mpr (.inl (hg.source_mem e (by simpa using he)))
  target_mem e he := mem_addNode_nodes.mpr (.inl (hg.target_mem e (by simpa using he)))

-- ---------------------------------------------------------------------------
-- Edges
-- ---------------------------------------------------------------------------

theorem ends_eq_iff {e f : Edge} : f.ends = e.ends ↔ f.source = e.source ∧ f.target = e.target :=
  Prod.mk.injEq .. ▸ Iff.rfl

theorem addTo_of_notMem {edges : List Edge} {e : Edge} (h : e.ends ∉ edges.map Edge.ends) :
    addTo edges e = edges ++ [e] := by
  induction edges with
  | nil => rfl
  | cons f rest ih =>
    rw [List.map_cons, List.mem_cons, not_or] at h
    have hother : ¬(f.source = e.source ∧ f.target = e.target) :=
      fun heq => h.1 (ends_eq_iff.mpr heq).symm
    rw [addTo, if_neg hother, ih h.2, List.cons_append]

theorem map_ends_addTo_of_mem {edges : List Edge} {e : Edge} (h : e.ends ∈ edges.map Edge.ends) :
    (addTo edges e).map Edge.ends = edges.map Edge.ends := by
  induction edges with
  | nil => cases h
  | cons f rest ih =>
    rw [addTo]
    split
    · split <;> rfl
    · rename_i hother
      have hrest : e.ends ∈ rest.map Edge.ends := by
        rw [List.map_cons, List.mem_cons] at h
        exact h.resolve_left fun heq => hother (ends_eq_iff.mp heq.symm)
      rw [List.map_cons, List.map_cons, ih hrest]

theorem nodup_ends_addTo {edges : List Edge} (e : Edge) (h : (edges.map Edge.ends).Nodup) :
    ((addTo edges e).map Edge.ends).Nodup := by
  by_cases hmem : e.ends ∈ edges.map Edge.ends
  · rwa [map_ends_addTo_of_mem hmem]
  · rw [addTo_of_notMem hmem, List.map_append, List.map_singleton, ← List.concat_eq_append]
    exact h.concat hmem

theorem mem_ends_addTo {edges : List Edge} {e f : Edge} (h : f ∈ addTo edges e) :
    f.ends = e.ends ∨ ∃ known ∈ edges, f.ends = known.ends := by
  have hends : f.ends ∈ (addTo edges e).map Edge.ends := List.mem_map_of_mem h
  by_cases hmem : e.ends ∈ edges.map Edge.ends
  · rw [map_ends_addTo_of_mem hmem] at hends
    obtain ⟨known, hknown, heq⟩ := List.mem_map.mp hends
    exact .inr ⟨known, hknown, heq.symm⟩
  · rw [addTo_of_notMem hmem] at h
    rcases List.mem_append.mp h with hknown | hnew
    · exact .inr ⟨f, hknown, rfl⟩
    · exact .inl (congrArg Edge.ends (List.mem_singleton.mp hnew))

theorem WellFormed.addEdge {g : Graph} (hg : g.WellFormed) (source target : Bytes)
    (kind : EdgeKind) : (g.addEdge source target kind).WellFormed := by
  have hnodes := (hg.addNode source).addNode target
  have hmem : ∀ e ∈ (g.addEdge source target kind).edges,
      e.source ∈ ((g.addNode source).addNode target).nodes ∧
        e.target ∈ ((g.addNode source).addNode target).nodes := by
    intro e he
    rcases mem_ends_addTo he with hnew | ⟨known, hknown, hsame⟩
    · obtain ⟨hsource, htarget⟩ := ends_eq_iff.mp hnew
      simp [hsource, htarget]
    · obtain ⟨hsource, htarget⟩ := ends_eq_iff.mp hsame
      rw [hsource, htarget]
      exact ⟨hnodes.source_mem known hknown, hnodes.target_mem known hknown⟩
  exact {
    nodes_nodup := hnodes.nodes_nodup
    ends_nodup := nodup_ends_addTo _ hnodes.ends_nodup
    source_mem := fun e he => (hmem e he).1
    target_mem := fun e he => (hmem e he).2 }

theorem Built.wellFormed {g : Graph} (h : g.Built) : g.WellFormed := by
  induction h with
  | empty => exact ⟨List.nodup_nil, List.nodup_nil, by simp [Graph.empty], by simp [Graph.empty]⟩
  | addNode name _ ih => exact ih.addNode name
  | addEdge source target kind _ ih => exact ih.addEdge source target kind

end Graph
end ClassHeader
