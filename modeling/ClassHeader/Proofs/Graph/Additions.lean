import ClassHeader.Proofs.Graph.Built

/-!
# What additions make of a graph

The names in the order of first mention are the nodes, and the pairs in the order of
first addition are the edges. An edge is hard exactly when its pair was ever added as
hard, so the order of additions decides nothing but the order of nodes and edges.
-/

namespace ClassHeader

theorem EdgeKind.eq_of_hard_iff {kind other : EdgeKind} (h : kind = .hard ↔ other = .hard) :
    kind = other := by
  cases kind <;> cases other <;> simp_all

namespace Graph

inductive Addition where
  | node (name : Bytes)
  | edge (source target : Bytes) (kind : EdgeKind)
  deriving DecidableEq, Repr

def Addition.names : Addition → List Bytes
  | .node name => [name]
  | .edge source target _ => [source, target]

def Addition.ends? : Addition → Option (Bytes × Bytes)
  | .node _ => none
  | .edge source target _ => some (source, target)

def add (g : Graph) : Addition → Graph
  | .node name => g.addNode name
  | .edge source target kind => g.addEdge source target kind

def ofAdditions (additions : List Addition) : Graph := additions.foldl add empty

@[simp] theorem ofAdditions_concat (additions : List Addition) (a : Addition) :
    ofAdditions (additions ++ [a]) = (ofAdditions additions).add a :=
  List.foldl_concat ..

theorem Built.add {g : Graph} (h : g.Built) : (a : Addition) → (g.add a).Built
  | .node name => .addNode name h
  | .edge source target kind => .addEdge source target kind h

theorem built_ofAdditions (additions : List Addition) : (ofAdditions additions).Built := by
  induction additions using List.reverseRecOn with
  | nil => exact .empty
  | append_singleton additions a ih =>
    rw [ofAdditions_concat]
    exact ih.add a

-- ---------------------------------------------------------------------------
-- Order of nodes and edges
-- ---------------------------------------------------------------------------

theorem eraseDups_concat_of_mem {α : Type} [BEq α] [LawfulBEq α] {as : List α} {a : α}
    (h : a ∈ as) : (as ++ [a]).eraseDups = as.eraseDups := by
  rw [List.eraseDups_append]
  simp [List.removeAll, h]

theorem eraseDups_concat_of_notMem {α : Type} [BEq α] [LawfulBEq α] {as : List α} {a : α}
    (h : a ∉ as) : (as ++ [a]).eraseDups = as.eraseDups ++ [a] := by
  rw [List.eraseDups_append]
  simp [List.removeAll, h, List.eraseDups_cons]

section

variable {g : Graph} {names : List Bytes} {pairs : List (Bytes × Bytes)}

/-- A name that was mentioned before keeps its place. -/
theorem addNode_nodes (h : g.nodes = names.eraseDups) (name : Bytes) :
    (g.addNode name).nodes = (names ++ [name]).eraseDups := by
  by_cases hname : name ∈ names
  · have hmem : name ∈ g.nodes := by rwa [h, List.mem_eraseDups]
    rw [addNode_of_mem hmem, h, eraseDups_concat_of_mem hname]
  · have hmem : name ∉ g.nodes := by rwa [h, List.mem_eraseDups]
    rw [addNode_nodes_of_notMem hmem, h, eraseDups_concat_of_notMem hname]

theorem map_ends_addTo {edges : List Edge} (h : edges.map Edge.ends = pairs.eraseDups) (e : Edge) :
    (addTo edges e).map Edge.ends = (pairs ++ [e.ends]).eraseDups := by
  by_cases hpair : e.ends ∈ pairs
  · have hmem : e.ends ∈ edges.map Edge.ends := by rwa [h, List.mem_eraseDups]
    rw [map_ends_addTo_of_mem hmem, h, eraseDups_concat_of_mem hpair]
  · have hmem : e.ends ∉ edges.map Edge.ends := by rwa [h, List.mem_eraseDups]
    rw [addTo_of_notMem hmem, List.map_append, List.map_singleton, h,
      eraseDups_concat_of_notMem hpair]

end

theorem nodes_ofAdditions (additions : List Addition) :
    (ofAdditions additions).nodes = (additions.flatMap Addition.names).eraseDups := by
  induction additions using List.reverseRecOn with
  | nil => rfl
  | append_singleton additions a ih =>
    rw [ofAdditions_concat, List.flatMap_append, List.flatMap_singleton]
    cases a with
    | node name => exact addNode_nodes ih name
    | edge source target kind =>
      have hboth := addNode_nodes (addNode_nodes ih source) target
      rwa [List.append_assoc] at hboth

theorem ends_ofAdditions (additions : List Addition) :
    (ofAdditions additions).edges.map Edge.ends =
      (additions.filterMap Addition.ends?).eraseDups := by
  induction additions using List.reverseRecOn with
  | nil => rfl
  | append_singleton additions a ih =>
    rw [ofAdditions_concat, List.filterMap_append]
    cases a with
    | node name =>
      rw [add, addNode_edges, ih]
      exact congrArg List.eraseDups (List.append_nil _).symm
    | edge source target kind =>
      have hpair := map_ends_addTo ih { source, target, kind }
      simpa [add, addEdge, Addition.ends?, Edge.ends] using hpair

-- ---------------------------------------------------------------------------
-- Kinds
-- ---------------------------------------------------------------------------

theorem addTo_of_mem {edges : List Edge} {e : Edge} (hnodup : (edges.map Edge.ends).Nodup)
    (h : e.ends ∈ edges.map Edge.ends) :
    addTo edges e = edges.map fun f =>
      if f.ends = e.ends ∧ e.kind = .hard then { f with kind := .hard } else f := by
  induction edges with
  | nil => cases h
  | cons f rest ih =>
    rw [List.map_cons, List.nodup_cons] at hnodup
    rw [addTo]
    by_cases hsame : f.ends = e.ends
    · -- No other edge has this pair, so the rest stays.
      have hrest : rest.map (fun f =>
          if f.ends = e.ends ∧ e.kind = .hard then { f with kind := .hard } else f) = rest := by
        refine (List.map_congr_left fun other hother => if_neg fun hcond => ?_).trans
          (List.map_id' rest)
        exact hnodup.1 (hsame ▸ hcond.1 ▸ List.mem_map_of_mem hother)
      rw [if_pos (ends_eq_iff.mp hsame), List.map_cons, hrest]
      simp [hsame]
    · have hmem : e.ends ∈ rest.map Edge.ends := by
        rw [List.map_cons, List.mem_cons] at h
        exact h.resolve_left fun heq => hsame heq.symm
      rw [if_neg fun hcond => hsame (ends_eq_iff.mpr hcond), ih hnodup.2 hmem, List.map_cons]
      simp [hsame]

/-- An edge is hard exactly when it was hard before or is now added as hard. -/
theorem hard_addTo_iff {edges : List Edge} {e f : Edge} (hnodup : (edges.map Edge.ends).Nodup)
    (hf : f ∈ addTo edges e) :
    f.kind = .hard ↔ (∃ known ∈ edges, known.ends = f.ends ∧ known.kind = .hard) ∨
      (e.ends = f.ends ∧ e.kind = .hard) := by
  by_cases hmem : e.ends ∈ edges.map Edge.ends
  · rw [addTo_of_mem hnodup hmem, List.mem_map] at hf
    obtain ⟨known, hknown, rfl⟩ := hf
    split_ifs with hcond
    · exact iff_of_true rfl (.inr ⟨hcond.1.symm, hcond.2⟩)
    · constructor
      · exact fun hkind => .inl ⟨known, hknown, rfl, hkind⟩
      · rintro (⟨other, hother, hends, hkind⟩ | ⟨hends, hkind⟩)
        · rwa [List.inj_on_of_nodup_map hnodup hknown hother hends.symm]
        · exact absurd ⟨hends.symm, hkind⟩ hcond
  · rw [addTo_of_notMem hmem, List.mem_append, List.mem_singleton] at hf
    rcases hf with hf | rfl
    · constructor
      · exact fun hkind => .inl ⟨f, hf, rfl, hkind⟩
      · rintro (⟨other, hother, hends, hkind⟩ | ⟨hends, -⟩)
        · rwa [List.inj_on_of_nodup_map hnodup hf hother hends.symm]
        · exact absurd (hends ▸ List.mem_map_of_mem hf) hmem
    · constructor
      · exact fun hkind => .inr ⟨rfl, hkind⟩
      · rintro (⟨other, hother, hends, -⟩ | ⟨-, hkind⟩)
        · exact absurd (hends ▸ List.mem_map_of_mem hother) hmem
        · exact hkind

theorem hard_ofAdditions_iff {additions : List Addition} {e : Edge}
    (he : e ∈ (ofAdditions additions).edges) :
    e.kind = .hard ↔ .edge e.source e.target .hard ∈ additions := by
  induction additions using List.reverseRecOn generalizing e with
  | nil => cases he
  | append_singleton additions a ih =>
    rw [ofAdditions_concat] at he
    rw [List.mem_append, List.mem_singleton]
    cases a with
    | node name =>
      rw [add, addNode_edges] at he
      simpa using ih he
    | edge source target kind =>
      have hedges : (((ofAdditions additions).addNode source).addNode target).edges =
          (ofAdditions additions).edges := by simp
      rw [add, addEdge] at he
      dsimp only at he
      rw [hedges] at he
      rw [hard_addTo_iff (built_ofAdditions additions).wellFormed.ends_nodup he]
      refine or_congr ⟨?_, fun hadded => ?_⟩ ?_
      · rintro ⟨known, hknown, hends, hkind⟩
        obtain ⟨hsource, htarget⟩ := ends_eq_iff.mp hends
        rw [← hsource, ← htarget]
        exact (ih hknown).mp hkind
      · have hpair : e.ends ∈ (ofAdditions additions).edges.map Edge.ends := by
          rw [ends_ofAdditions, List.mem_eraseDups]
          exact List.mem_filterMap.mpr ⟨_, hadded, rfl⟩
        obtain ⟨known, hknown, hends⟩ := List.mem_map.mp hpair
        obtain ⟨hsource, htarget⟩ := ends_eq_iff.mp hends
        exact ⟨known, hknown, hends, (ih hknown).mpr (by rwa [hsource, htarget])⟩
      · rw [Addition.edge.injEq, ends_eq_iff]
        tauto

-- ---------------------------------------------------------------------------
-- Other orders of the same additions
-- ---------------------------------------------------------------------------

theorem mem_edges_ofAdditions {additions : List Addition} {e : Edge} :
    e ∈ (ofAdditions additions).edges ↔ e.ends ∈ additions.filterMap Addition.ends? ∧
      (e.kind = .hard ↔ .edge e.source e.target .hard ∈ additions) := by
  have hpairs : e.ends ∈ (ofAdditions additions).edges.map Edge.ends ↔
      e.ends ∈ additions.filterMap Addition.ends? := by
    rw [ends_ofAdditions, List.mem_eraseDups]
  constructor
  · exact fun he => ⟨hpairs.mp (List.mem_map_of_mem he), hard_ofAdditions_iff he⟩
  · rintro ⟨hends, hkind⟩
    obtain ⟨known, hknown, hsame⟩ := List.mem_map.mp (hpairs.mpr hends)
    obtain ⟨hsource, htarget⟩ := ends_eq_iff.mp hsame
    have hhard := hard_ofAdditions_iff hknown
    rw [hsource, htarget, ← hkind] at hhard
    have heq : known = e := by
      cases known
      cases e
      rw [Edge.mk.injEq]
      exact ⟨hsource, htarget, EdgeKind.eq_of_hard_iff hhard⟩
    rwa [heq] at hknown

variable {additions other : List Addition}

theorem nodes_perm_of_perm (h : other.Perm additions) :
    (ofAdditions other).nodes.Perm (ofAdditions additions).nodes := by
  refine (List.perm_ext_iff_of_nodup (built_ofAdditions other).wellFormed.nodes_nodup
    (built_ofAdditions additions).wellFormed.nodes_nodup).mpr fun name => ?_
  simp only [nodes_ofAdditions, List.mem_eraseDups, List.mem_flatMap, h.mem_iff]

theorem edges_perm_of_perm (h : other.Perm additions) :
    (ofAdditions other).edges.Perm (ofAdditions additions).edges := by
  refine (List.perm_ext_iff_of_nodup
    ((built_ofAdditions other).wellFormed.ends_nodup.of_map _)
    ((built_ofAdditions additions).wellFormed.ends_nodup.of_map _)).mpr fun e => ?_
  simp only [mem_edges_ofAdditions, List.mem_filterMap, h.mem_iff]

end Graph
end ClassHeader
