import ClassHeader.Proofs.Graph.Order

/-!
# The walk as a recursion

The walk with its stack gives the post-order of a recursive search: roots in the order of
the nodes, and at each node its hard edges in the order in which they were first added.
A run from a node that is put on the stack to the moment that it leaves the stack is one
call of the recursion. So the order depends on the nodes and the hard edges alone, and an
edge that becomes hard is followed in its old place.
-/

namespace ClassHeader.Graph

-- ---------------------------------------------------------------------------
-- The recursive search
-- ---------------------------------------------------------------------------

/-- Going from name to target always ends. -/
def Grounded (targets : Bytes → List Bytes) : Prop :=
  WellFounded fun target name => target ∈ targets name

/-- Puts a name behind all its targets, and these behind theirs, unless it is there already. -/
def visit (targets : Bytes → List Bytes) (h : Grounded targets) (order : List Bytes)
    (name : Bytes) : List Bytes :=
  if name ∈ order then order
  else (targets name).attach.foldl (fun order t => visit targets h order t.1) order ++ [name]
termination_by h.wrap name
decreasing_by exact t.2

def postOrder (targets : Bytes → List Bytes) (h : Grounded targets) (roots : List Bytes) :
    List Bytes :=
  roots.foldl (visit targets h) []

section

variable {targets : Bytes → List Bytes} {h : Grounded targets} {order : List Bytes} {name : Bytes}

theorem visit_of_mem (hmem : name ∈ order) : visit targets h order name = order := by
  rw [visit, if_pos hmem]

theorem visit_of_notMem (hnew : name ∉ order) :
    visit targets h order name = (targets name).foldl (visit targets h) order ++ [name] := by
  rw [visit, if_neg hnew, List.foldl_attach]

end

-- ---------------------------------------------------------------------------
-- Hard edges by name
-- ---------------------------------------------------------------------------

/-- The targets of a node's hard edges, in the order in which its edges were first added. -/
def hardNames (g : Graph) (name : Bytes) : List Bytes :=
  ((g.edgesFrom name).filter (·.kind = .hard)).map (·.target)

variable {g g' : Graph}

theorem mem_hardNames {source target : Bytes} :
    target ∈ g.hardNames source ↔ g.HardEdge source target := by
  simp only [hardNames, edgesFrom, HardEdge, List.mem_map, List.mem_filter, decide_eq_true_eq]
  constructor
  · rintro ⟨⟨_, _, _⟩, ⟨⟨hmem, rfl⟩, rfl⟩, rfl⟩
    exact hmem
  · intro hmem
    exact ⟨_, ⟨⟨hmem, rfl⟩, rfl⟩, rfl⟩

theorem hardTargets_eq {n : Nat} (hn : n < g.nodes.length) :
    g.hardTargets n = (g.hardNames (g.nameOf n)).map g.nodes.idxOf := by
  simp only [hardTargets, nameOf, List.getElem?_eq_getElem hn, Option.getD_some, hardNames,
    edgesFrom, List.filter_filter, List.map_map]
  congr 1
  refine List.filter_congr fun e _ => ?_
  rw [Bool.and_comm]

theorem hardNames_congr
    (h : g'.edges.filter (·.kind = .hard) = g.edges.filter (·.kind = .hard)) :
    g'.hardNames = g.hardNames := by
  have hfirst : ∀ (g : Graph) (name : Bytes), g.hardNames name =
      ((g.edges.filter (·.kind = .hard)).filter (·.source = name)).map (·.target) := by
    intro g name
    rw [hardNames, edgesFrom, List.filter_comm]
  funext name
  rw [hfirst, hfirst, h]

/-- A graph without cycles of hard edges has an order, which goes down along every hard edge. -/
theorem WellFormed.grounded (hg : g.WellFormed)
    (hacyclic : ∀ name, ¬ Relation.TransGen g.HardEdge name name) : Grounded g.hardNames := by
  cases hresult : g.topologicalOrder with
  | error e =>
    obtain ⟨fault, -, -, hcycle⟩ := topologicalOrder_error hg hresult
    obtain ⟨name, hloop⟩ := hcycle.transGen
    exact absurd hloop (hacyclic name)
  | ok order =>
    have hdown := (topologicalOrder_ok hg hresult).2
    exact Subrelation.wf (fun h => hdown _ _ (mem_hardNames.mp h)) (measure order.idxOf).wf

-- ---------------------------------------------------------------------------
-- Runs of the walk
-- ---------------------------------------------------------------------------

def Runs (g : Graph) : Walk → Walk → Prop :=
  Relation.ReflTransGen fun w w' => w.stack ≠ [] ∧ g.advance w = .ok w'

theorem descend_eq_of_runs {fuel : Nat} {w w' last : Walk} (hruns : g.Runs w w')
    (hstack : w'.stack = []) (hdescend : g.descend fuel w = .ok last) (hlast : last.stack = []) :
    last = w' := by
  induction hruns using Relation.ReflTransGen.head_induction_on generalizing fuel with
  | refl =>
    cases fuel with
    | zero => exact (Except.ok.inj hdescend).symm
    | succ fuel =>
      rw [descend, if_pos (List.isEmpty_iff.mpr hstack)] at hdescend
      exact (Except.ok.inj hdescend).symm
  | @head w mid hstep _ ih =>
    obtain ⟨hne, hadvance⟩ := hstep
    cases fuel with
    | zero =>
      cases hdescend
      exact absurd hlast hne
    | succ fuel =>
      rw [descend, if_neg (by simpa using hne), hadvance] at hdescend
      exact ih hdescend

def Walk.names (g : Graph) (w : Walk) : List Bytes := w.order.map g.nameOf

section

variable (hg : g.WellFormed) (hacyclic : ∀ name, ¬ Relation.TransGen g.HardEdge name name)
  {w : Walk}

include hg

theorem Walk.Sound.mem_names_iff {above : Option Nat} (h : w.Sound g above) {name : Bytes}
    (hname : name ∈ g.nodes) : name ∈ w.names g ↔ g.nodes.idxOf name ∈ w.order := by
  constructor
  · intro hmem
    obtain ⟨n, hn, rfl⟩ := List.mem_map.mp hmem
    rwa [hg.idxOf_nameOf (h.bounded n (List.mem_append_left _ hn))]
  · intro hmem
    exact List.mem_map.mpr ⟨_, hmem, nameOf_idxOf hname⟩

include hacyclic

theorem Walk.Sound.notMem_stack {t : Nat} (h : w.Sound g (some t)) :
    t ∉ w.stack.map (·.node) := by
  intro hmem
  obtain ⟨name, hloop⟩ := (h.isHardCycle hg hmem).transGen
  exact hacyclic name hloop

/-- What the recursion does for a name, a run does from the step that puts it on the stack to the
one that takes it off. -/
def Called (g : Graph) (h : Grounded g.hardNames) (name : Bytes) : Prop :=
  ∀ {w : Walk}, w.Sound g (some (g.nodes.idxOf name)) → name ∉ w.names g →
    ∃ w', g.Runs (g.enter w (g.nodes.idxOf name)) w' ∧ w'.Sound g none ∧ w'.stack = w.stack ∧
      w'.names g = visit g.hardNames h (w.names g) name

/-- The targets of the top frame are looked at one after another, as the recursion does. -/
theorem exists_run_targets (hgrounded : Grounded g.hardNames) {node : Nat} {below : List Frame}
    {left : List Bytes} (hleft : ∀ t ∈ left, t ∈ g.nodes)
    (hcalled : ∀ t ∈ left, Called g hgrounded t) (h : w.Sound g none)
    (hstack : w.stack = ⟨node, left.map g.nodes.idxOf⟩ :: below) :
    ∃ w', g.Runs w w' ∧ w'.Sound g none ∧ w'.stack = ⟨node, []⟩ :: below ∧
      w'.names g = left.foldl (visit g.hardNames hgrounded) (w.names g) := by
  induction left generalizing w with
  | nil => exact ⟨w, .refl, h, hstack, rfl⟩
  | cons t left ih =>
    rw [List.forall_mem_cons] at hleft hcalled
    rw [List.map_cons] at hstack
    have hreach := h.reach hstack
    have hopen : ¬ w.onStack.contains (g.nodes.idxOf t) = true := fun hcycle =>
      hreach.notMem_stack hg hacyclic ((hreach.onStack_iff _).mp hcycle)
    have hne : w.stack ≠ [] := by simp [hstack]
    by_cases hdone : t ∈ w.names g
    · -- The target is passed over.
      have hmem := (hreach.mem_names_iff hg hleft.1).mp hdone
      have hstep : g.advance w =
          .ok { w with stack := ⟨node, left.map g.nodes.idxOf⟩ :: below } := by
        simp only [advance, hstack]
        rw [if_neg hopen, if_pos ((h.done_iff _).mpr hmem)]
        rfl
      obtain ⟨w', hruns, hsound, hstack', hnames⟩ :=
        ih hleft.2 hcalled.2 (hreach.pass hmem) rfl
      refine ⟨w', .head ⟨hne, hstep⟩ hruns, hsound, hstack', ?_⟩
      rw [List.foldl_cons, visit_of_mem hdone]
      exact hnames
    · -- The target is a call of its own, behind which the frame is on top again.
      have hstep : g.advance w = .ok (g.enter
          { w with stack := ⟨node, left.map g.nodes.idxOf⟩ :: below } (g.nodes.idxOf t)) := by
        have hnotDone : ¬ w.done.contains (g.nodes.idxOf t) = true := fun hcontains =>
          hdone ((hreach.mem_names_iff hg hleft.1).mpr ((h.done_iff _).mp hcontains))
        simp only [advance, hstack]
        rw [if_neg hopen, if_neg hnotDone]
        rfl
      obtain ⟨mid, hcall, hmid, hmidStack, hmidNames⟩ := hcalled.1 hreach hdone
      obtain ⟨w', hruns, hsound, hstack', hnames⟩ := ih hleft.2 hcalled.2 hmid hmidStack
      refine ⟨w', .head ⟨hne, hstep⟩ (hcall.trans hruns), hsound, hstack', ?_⟩
      rw [hnames, hmidNames, List.foldl_cons]
      rfl

theorem called (hgrounded : Grounded g.hardNames) (name : Bytes) (hname : name ∈ g.nodes) :
    Called g hgrounded name := by
  induction name using hgrounded.induction with
  | _ name ih =>
    intro w h hnew
    have hlt := List.idxOf_lt_length_of_mem hname
    have hnotVisited : g.nodes.idxOf name ∉ w.visited := by
      rw [Walk.visited, List.mem_append, not_or]
      exact ⟨fun hmem => hnew ((h.mem_names_iff hg hname).mpr hmem), h.notMem_stack hg hacyclic⟩
    have htargets : ∀ t ∈ g.hardNames name, t ∈ g.nodes := fun t ht =>
      hg.target_mem _ (mem_hardNames.mp ht)
    have hentered : (g.enter w (g.nodes.idxOf name)).stack =
        ⟨g.nodes.idxOf name, (g.hardNames name).map g.nodes.idxOf⟩ :: w.stack := by
      simp only [enter, hardTargets_eq hlt, nameOf_idxOf hname]
    obtain ⟨mid, hruns, hmid, hmidStack, hmidNames⟩ :=
      exists_run_targets hg hacyclic hgrounded htargets (fun t ht => ih t ht (htargets t ht))
        (h.enter hnotVisited hlt) hentered
    -- One more step takes the node off the stack.
    refine ⟨_, hruns.tail ⟨by simp [hmidStack], by simp only [advance, hmidStack]; rfl⟩,
      hmid.leave hmidStack, rfl, ?_⟩
    rw [visit_of_notMem hnew, Walk.names, List.map_append, List.map_singleton, nameOf_idxOf hname]
    exact congrArg (· ++ [name]) hmidNames

theorem exists_walkFrom (hgrounded : Grounded g.hardNames) (h : w.Rests g) {root : Nat}
    (hroot : root < g.nodes.length) :
    ∃ w', g.walkFrom w root = .ok w' ∧ w'.Rests g ∧
      w'.names g = visit g.hardNames hgrounded (w.names g) (g.nameOf root) := by
  have hname : g.nameOf root ∈ g.nodes := by
    rw [nameOf_eq_getElem hroot]
    exact List.getElem_mem hroot
  have hindex := hg.idxOf_nameOf hroot
  by_cases hdone : g.nameOf root ∈ w.names g
  · have hmem := (h.sound.mem_names_iff hg hname).mp hdone
    rw [hindex] at hmem
    refine ⟨w, ?_, h, (visit_of_mem hdone).symm⟩
    rw [walkFrom, if_pos ((h.sound.done_iff root).mpr hmem)]
    rfl
  · have hopen : ¬ w.done.contains root = true := fun hcontains => hdone
      ((h.sound.mem_names_iff hg hname).mpr (hindex.symm ▸ (h.sound.done_iff root).mp hcontains))
    have hlinked : Linked g w.order (some (g.nodes.idxOf (g.nameOf root))) w.stack :=
      h.stack_nil ▸ trivial
    obtain ⟨w', hruns, hsound, hstack, hnames⟩ :=
      called hg hacyclic hgrounded _ hname { h.sound with linked := hlinked } hdone
    rw [hindex] at hruns
    have hrests : w'.Rests g := ⟨hsound, hstack.trans h.stack_nil⟩
    have hends := walkFrom_ends hg h hroot
    cases hwalk : g.walkFrom w root with
    | error e =>
      rw [hwalk] at hends
      obtain ⟨fault, -, -, hcycle⟩ := hends
      obtain ⟨name, hloop⟩ := hcycle.transGen
      exact absurd hloop (hacyclic name)
    | ok last =>
      rw [hwalk] at hends
      rw [walkFrom, if_neg hopen] at hwalk
      obtain rfl := descend_eq_of_runs hruns hrests.stack_nil hwalk hends.1.stack_nil
      exact ⟨last, rfl, hrests, hnames⟩

theorem exists_walk (hgrounded : Grounded g.hardNames) {roots : List Nat}
    (hroots : ∀ root ∈ roots, root < g.nodes.length) (h : w.Rests g) :
    ∃ w', roots.foldlM g.walkFrom w = .ok w' ∧
      w'.names g = (roots.map g.nameOf).foldl (visit g.hardNames hgrounded) (w.names g) := by
  induction roots generalizing w with
  | nil => exact ⟨w, rfl, rfl⟩
  | cons root roots ih =>
    rw [List.forall_mem_cons] at hroots
    obtain ⟨mid, hmid, hrests, hnames⟩ := exists_walkFrom hg hacyclic hgrounded h hroots.1
    obtain ⟨w', hw', hnames'⟩ := ih hroots.2 hrests
    refine ⟨w', ?_, ?_⟩
    · rw [List.foldlM_cons, hmid]
      exact hw'
    · rw [hnames', hnames, List.map_cons, List.foldl_cons]

theorem WellFormed.topologicalOrder_eq (hgrounded : Grounded g.hardNames) :
    g.topologicalOrder = .ok (postOrder g.hardNames hgrounded g.nodes) := by
  have hroots : ∀ root ∈ List.range g.nodes.length, root < g.nodes.length :=
    fun _ => List.mem_range.mp
  obtain ⟨w, hwalk, hnames⟩ :=
    exists_walk hg hacyclic hgrounded hroots ⟨start_sound g, rfl⟩
  rw [map_nameOf_range] at hnames
  rw [topologicalOrder, hwalk]
  exact congrArg Except.ok hnames

end

-- ---------------------------------------------------------------------------
-- Soft edges
-- ---------------------------------------------------------------------------

theorem postOrder_congr {targets targets' : Bytes → List Bytes} {h : Grounded targets}
    {h' : Grounded targets'} (htargets : targets' = targets) (roots : List Bytes) :
    postOrder targets' h' roots = postOrder targets h roots := by
  subst htargets
  rfl

/-- Graphs that differ in their soft edges only have the same order. -/
theorem topologicalOrder_congr (hg : g.WellFormed) (hg' : g'.WellFormed)
    (hacyclic : ∀ name, ¬ Relation.TransGen g.HardEdge name name) (hnodes : g'.nodes = g.nodes)
    (hhard : g'.edges.filter (·.kind = .hard) = g.edges.filter (·.kind = .hard)) :
    g'.topologicalOrder = g.topologicalOrder := by
  have hnames := hardNames_congr hhard
  have hedges : g'.HardEdge = g.HardEdge := by
    funext source target
    rw [eq_iff_iff, ← mem_hardNames, ← mem_hardNames, hnames]
  rw [hg.topologicalOrder_eq hacyclic (hg.grounded hacyclic),
    hg'.topologicalOrder_eq (hedges ▸ hacyclic) (hg'.grounded (hedges ▸ hacyclic)), hnodes,
    postOrder_congr hnames]

theorem addEdge_nodes {source target : Bytes} {kind : EdgeKind} (hsource : source ∈ g.nodes)
    (htarget : target ∈ g.nodes) : (g.addEdge source target kind).nodes = g.nodes := by
  rw [addEdge, addNode_of_mem hsource, addNode_of_mem htarget]

theorem addEdge_edges (source target : Bytes) (kind : EdgeKind) :
    (g.addEdge source target kind).edges = addTo g.edges ⟨source, target, kind⟩ := by
  simp only [addEdge, addNode_edges]

theorem filter_hard_addTo {edges : List Edge} {e : Edge} (hsoft : e.kind = .soft) :
    (addTo edges e).filter (·.kind = .hard) = edges.filter (·.kind = .hard) := by
  induction edges with
  | nil => simp [addTo, hsoft]
  | cons f edges ih =>
    rw [addTo]
    split_ifs with _ hhard
    · rw [hsoft] at hhard
      cases hhard
    · rfl
    · rw [List.filter_cons, List.filter_cons, ih]

theorem WellFormed.filter (hg : g.WellFormed) (keep : Edge → Bool) :
    WellFormed { g with edges := g.edges.filter keep } where
  nodes_nodup := hg.nodes_nodup
  ends_nodup := hg.ends_nodup.sublist (List.filter_sublist.map _)
  source_mem e he := hg.source_mem e (List.mem_of_mem_filter he)
  target_mem e he := hg.target_mem e (List.mem_of_mem_filter he)

-- ---------------------------------------------------------------------------
-- An edge that becomes hard
-- ---------------------------------------------------------------------------

/-- The targets of a node's hard edges and of the edge from `source` to `target`, in the order in
which its edges were first added. -/
def hardNamesWith (g : Graph) (source target name : Bytes) : List Bytes :=
  ((g.edgesFrom name).filter fun e =>
    e.kind = .hard ∨ e.source = source ∧ e.target = target).map (·.target)

def harden (source target : Bytes) (e : Edge) : Edge :=
  if e.source = source ∧ e.target = target then { e with kind := .hard } else e

section

variable {source target : Bytes}

@[simp] theorem harden_source (e : Edge) : (harden source target e).source = e.source := by
  unfold harden
  split <;> rfl

@[simp] theorem harden_target (e : Edge) : (harden source target e).target = e.target := by
  unfold harden
  split <;> rfl

theorem harden_kind (e : Edge) : (harden source target e).kind = .hard ↔
    e.kind = .hard ∨ e.source = source ∧ e.target = target := by
  unfold harden
  split_ifs with hends <;> simp [hends]

theorem addTo_hard {edges : List Edge} (hnodup : (edges.map Edge.ends).Nodup)
    (hmem : (source, target) ∈ edges.map Edge.ends) :
    addTo edges ⟨source, target, .hard⟩ = edges.map (harden source target) := by
  induction edges with
  | nil => cases hmem
  | cons f edges ih =>
    rw [List.map_cons, List.nodup_cons] at hnodup
    rw [addTo, List.map_cons]
    by_cases hends : f.source = source ∧ f.target = target
    · have hothers : ∀ e ∈ edges, harden source target e = e := by
        intro e he
        refine if_neg fun heq => hnodup.1 ?_
        have hsame : f.ends = e.ends :=
          ends_eq_iff.mpr ⟨hends.1.trans heq.1.symm, hends.2.trans heq.2.symm⟩
        exact hsame ▸ List.mem_map_of_mem he
      rw [if_pos hends, if_pos rfl, List.map_congr_left hothers, List.map_id', harden,
        if_pos hends]
    · have hrest : (source, target) ∈ edges.map Edge.ends := by
        rw [List.map_cons, List.mem_cons] at hmem
        exact hmem.resolve_left fun heq => hends (by simpa [Edge.ends, eq_comm] using heq)
      rw [if_neg hends, ih hnodup.2 hrest, harden, if_neg hends]

theorem hardNames_addEdge_hard (hg : g.WellFormed) {kind : EdgeKind}
    (hmem : ⟨source, target, kind⟩ ∈ g.edges) :
    (g.addEdge source target .hard).hardNames = g.hardNamesWith source target := by
  have hends : (source, target) ∈ g.edges.map Edge.ends := List.mem_map_of_mem hmem
  funext name
  simp only [hardNames, hardNamesWith, edgesFrom, addEdge_edges, addTo_hard hg.ends_nodup hends,
    List.filter_map, List.map_map, Function.comp_def, harden_source, harden_target, harden_kind]

end

/-- The order of a built graph without cycles of hard edges is the post-order of the recursive
search along its hard edges. Soft edges between its nodes may come and go, and an edge that
becomes hard is followed where it was first added. -/
theorem topologicalOrder_eq_postOrder (hbuilt : g.Built)
    (hacyclic : ∀ name, ¬ Relation.TransGen g.HardEdge name name) :
    (∃ h : Grounded g.hardNames,
      g.topologicalOrder = .ok (postOrder g.hardNames h g.nodes)) ∧
    (∀ source ∈ g.nodes, ∀ target ∈ g.nodes,
      (g.addEdge source target .soft).topologicalOrder = g.topologicalOrder) ∧
    (∀ keep : Edge → Bool, (∀ e ∈ g.edges, e.kind = .hard → keep e = true) →
      topologicalOrder { g with edges := g.edges.filter keep } = g.topologicalOrder) ∧
    ∀ source target, ⟨source, target, .soft⟩ ∈ g.edges →
      (∀ name, ¬ Relation.TransGen (g.addEdge source target .hard).HardEdge name name) →
      ∃ h : Grounded (g.hardNamesWith source target),
        (g.addEdge source target .hard).topologicalOrder =
          .ok (postOrder (g.hardNamesWith source target) h g.nodes) := by
  have hg := hbuilt.wellFormed
  refine ⟨⟨hg.grounded hacyclic, hg.topologicalOrder_eq hacyclic _⟩, ?_, ?_, ?_⟩
  · intro source hsource target htarget
    refine topologicalOrder_congr hg (hg.addEdge ..) hacyclic (addEdge_nodes hsource htarget) ?_
    rw [addEdge_edges, filter_hard_addTo rfl]
  · intro keep hkeep
    refine topologicalOrder_congr hg (hg.filter keep) hacyclic rfl ?_
    rw [List.filter_filter]
    refine List.filter_congr fun e he => ?_
    by_cases hhard : e.kind = .hard
    · simp [hhard, hkeep e he hhard]
    · simp [hhard]
  · intro source target hmem hacyclic'
    have hg' := hg.addEdge source target .hard
    have hnodes : (g.addEdge source target .hard).nodes = g.nodes :=
      addEdge_nodes (hg.source_mem _ hmem) (hg.target_mem _ hmem)
    have horder := hg'.topologicalOrder_eq hacyclic' (hg'.grounded hacyclic')
    rw [hnodes] at horder
    have hnames := hardNames_addEdge_hard hg hmem
    have hgrounded : Grounded (g.hardNamesWith source target) :=
      hnames ▸ hg'.grounded hacyclic'
    exact ⟨hgrounded, horder.trans (congrArg Except.ok (postOrder_congr hnames _))⟩

/-- A mere reference, a hard edge behind it, and a reference back. -/
def detourGraph : Graph :=
  ((empty.addEdge (text "A") (text "B") .soft).addEdge (text "A") (text "C") .hard).addEdge
    (text "B") (text "A") .soft

theorem topologicalOrder_eq_postOrder_detour :
    detourGraph.Built ∧ (∀ name, ¬ Relation.TransGen detourGraph.HardEdge name name) ∧
      ⟨text "A", text "B", .soft⟩ ∈ detourGraph.edges ∧
      (∀ name, ¬ Relation.TransGen
        (detourGraph.addEdge (text "A") (text "B") .hard).HardEdge name name) ∧
      detourGraph.topologicalOrder = .ok [text "C", text "A", text "B"] ∧
      (detourGraph.addEdge (text "A") (text "B") .hard).topologicalOrder =
        .ok [text "B", text "C", text "A"] ∧
      (∃ h : Grounded detourGraph.hardNames, detourGraph.topologicalOrder =
        .ok (postOrder detourGraph.hardNames h detourGraph.nodes)) ∧
      ∃ h : Grounded (detourGraph.hardNamesWith (text "A") (text "B")),
        (detourGraph.addEdge (text "A") (text "B") .hard).topologicalOrder =
          .ok (postOrder (detourGraph.hardNamesWith (text "A") (text "B")) h
            detourGraph.nodes) := by
  have hbuilt : detourGraph.Built := .addEdge _ _ _ (.addEdge _ _ _ (.addEdge _ _ _ .empty))
  have horder : detourGraph.topologicalOrder = .ok [text "C", text "A", text "B"] := by decide
  have hupgraded : (detourGraph.addEdge (text "A") (text "B") .hard).topologicalOrder =
      .ok [text "B", text "C", text "A"] := by decide
  have hacyclic := hbuilt.wellFormed.acyclic_of_order horder
  have hacyclic' := (hbuilt.wellFormed.addEdge _ _ _).acyclic_of_order hupgraded
  have hmem : ⟨text "A", text "B", .soft⟩ ∈ detourGraph.edges := by decide
  obtain ⟨hsearch, -, -, hharden⟩ := topologicalOrder_eq_postOrder hbuilt hacyclic
  exact ⟨hbuilt, hacyclic, hmem, hacyclic', horder, hupgraded, hsearch,
    hharden _ _ hmem hacyclic'⟩

end ClassHeader.Graph
