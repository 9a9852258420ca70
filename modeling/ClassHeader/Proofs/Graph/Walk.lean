import ClassHeader.Graph.Order
import ClassHeader.Proofs.Graph.BitSet
import ClassHeader.Proofs.Graph.Built

/-!
# The depth-first walk

The invariant of the walk: the stack is a path along hard edges, every node below
its top waits for the node right above it, and a node that is done stands behind
all its targets. Each step keeps the invariant or closes a cycle, and the steps
left are bounded by the targets and nodes that are not settled yet, so that the
walk always comes to its end.
-/

namespace ClassHeader.Graph

variable {g : Graph}

def HardEdge (g : Graph) (source target : Bytes) : Prop := ⟨source, target, .hard⟩ ∈ g.edges

/-- A round trip along hard edges that meets each of its members once. -/
structure IsHardCycle (g : Graph) (members : List Bytes) : Prop where
  two_le_length : 2 ≤ members.length
  closed : members.head? = members.getLast?
  distinct : members.dropLast.Nodup
  linked : members.IsChain g.HardEdge

-- ---------------------------------------------------------------------------
-- Numbers of nodes
-- ---------------------------------------------------------------------------

theorem nameOf_eq_getElem {n : Nat} (h : n < g.nodes.length) : g.nameOf n = g.nodes[n] := by
  simp [nameOf, h]

theorem nameOf_idxOf {name : Bytes} (h : name ∈ g.nodes) :
    g.nameOf (g.nodes.idxOf name) = name := by
  rw [nameOf_eq_getElem (List.idxOf_lt_length_of_mem h), List.getElem_idxOf]

theorem WellFormed.idxOf_nameOf (hg : g.WellFormed) {n : Nat} (h : n < g.nodes.length) :
    g.nodes.idxOf (g.nameOf n) = n := by
  rw [nameOf_eq_getElem h, hg.nodes_nodup.idxOf_getElem]

theorem WellFormed.nodup_map_nameOf (hg : g.WellFormed) {ns : List Nat} (hns : ns.Nodup)
    (hlt : ∀ n ∈ ns, n < g.nodes.length) : (ns.map g.nameOf).Nodup := by
  refine hns.map_on fun a ha b hb heq => ?_
  rw [← hg.idxOf_nameOf (hlt a ha), heq, hg.idxOf_nameOf (hlt b hb)]

theorem map_nameOf_range (g : Graph) : (List.range g.nodes.length).map g.nameOf = g.nodes := by
  apply List.ext_getElem
  · simp
  · intro n _ hn
    rw [List.getElem_map, List.getElem_range, nameOf_eq_getElem hn]

theorem mem_hardTargets {n t : Nat} :
    t ∈ g.hardTargets n ↔ n < g.nodes.length ∧
      ∃ target, g.HardEdge (g.nameOf n) target ∧ g.nodes.idxOf target = t := by
  unfold hardTargets HardEdge nameOf
  cases hn : g.nodes[n]? with
  | none =>
    have hout : ¬ n < g.nodes.length := by simpa using hn
    simp [hout]
  | some name =>
    obtain ⟨hlt, rfl⟩ := List.getElem?_eq_some_iff.mp hn
    simp only [List.mem_map, List.mem_filter, Bool.and_eq_true, decide_eq_true_eq, Option.getD_some]
    constructor
    · rintro ⟨⟨source, target, kind⟩, ⟨hmem, rfl, rfl⟩, rfl⟩
      exact ⟨hlt, target, hmem, rfl⟩
    · rintro ⟨_, target, hmem, rfl⟩
      exact ⟨_, ⟨hmem, rfl, rfl⟩, rfl⟩

theorem WellFormed.hardTargets_lt (hg : g.WellFormed) {n t : Nat} (h : t ∈ g.hardTargets n) :
    t < g.nodes.length := by
  obtain ⟨_, target, hedge, rfl⟩ := mem_hardTargets.mp h
  exact List.idxOf_lt_length_of_mem (hg.target_mem _ hedge)

theorem WellFormed.hardEdge_nameOf (hg : g.WellFormed) {n t : Nat} (h : t ∈ g.hardTargets n) :
    g.HardEdge (g.nameOf n) (g.nameOf t) := by
  obtain ⟨_, target, hedge, rfl⟩ := mem_hardTargets.mp h
  rwa [nameOf_idxOf (hg.target_mem _ hedge)]

theorem WellFormed.mem_hardTargets_idxOf (hg : g.WellFormed) {source target : Bytes}
    (h : g.HardEdge source target) :
    g.nodes.idxOf target ∈ g.hardTargets (g.nodes.idxOf source) := by
  have hsource := hg.source_mem _ h
  refine mem_hardTargets.mpr ⟨List.idxOf_lt_length_of_mem hsource, target, ?_, rfl⟩
  rwa [nameOf_idxOf hsource]

/-- Each edge is a hard edge of one node at most. -/
theorem WellFormed.sum_length_hardTargets_le (hg : g.WellFormed) :
    ∑ n ∈ Finset.range g.nodes.length, (g.hardTargets n).length ≤ g.edges.length := by
  have hnode : ∀ n ∈ Finset.range g.nodes.length, (g.hardTargets n).length =
      g.edges.countP fun e => e.source = g.nameOf n && e.kind = .hard := by
    intro n hn
    have hlt := Finset.mem_range.mp hn
    simp [hardTargets, nameOf, hlt, List.countP_eq_length_filter]
  rw [Finset.sum_congr rfl hnode]
  induction g.edges with
  | nil => simp
  | cons e edges ih =>
    simp only [List.countP_cons, Finset.sum_add_distrib, List.length_cons]
    refine Nat.add_le_add ih ?_
    rw [← Finset.sum_filter, ← Finset.card_eq_sum_ones, Finset.card_le_one]
    intro a ha b hb
    simp only [Finset.mem_filter, Finset.mem_range, Bool.and_eq_true, decide_eq_true_eq] at ha hb
    rw [← hg.idxOf_nameOf ha.1, ← ha.2.1, hb.2.1, hg.idxOf_nameOf hb.1]

-- ---------------------------------------------------------------------------
-- The stack
-- ---------------------------------------------------------------------------

/-- What a frame below the node `above`, or at the top, has settled of its targets. -/
structure Frame.Waits (g : Graph) (order : List Nat) (above : Option Nat) (f : Frame) : Prop where
  above_mem : ∀ t ∈ above, t ∈ g.hardTargets f.node
  left_sub : f.left ⊆ g.hardTargets f.node
  settled : ∀ t ∈ g.hardTargets f.node, t ∈ f.left ∨ t ∈ order ∨ above = some t

/-- Each frame waits for the node right above it. -/
def Linked (g : Graph) (order : List Nat) : Option Nat → List Frame → Prop
  | _, [] => True
  | above, f :: below => f.Waits g order above ∧ Linked g order (some f.node) below

theorem Linked.mono {order order' : List Nat} (hsub : order ⊆ order') {above : Option Nat}
    {stack : List Frame} (h : Linked g order above stack) : Linked g order' above stack := by
  induction stack generalizing above with
  | nil => trivial
  | cons f below ih =>
    obtain ⟨hwaits, hbelow⟩ := h
    refine ⟨⟨hwaits.above_mem, hwaits.left_sub, fun t ht => ?_⟩, ih hbelow⟩
    exact (hwaits.settled t ht).imp_right (Or.imp_left (hsub ·))

theorem Linked.settle {order : List Nat} {node : Nat} {stack : List Frame}
    (h : Linked g order (some node) stack) : Linked g (order ++ [node]) none stack := by
  cases stack with
  | nil => trivial
  | cons f below =>
    obtain ⟨hwaits, hbelow⟩ := h
    refine ⟨⟨by simp, hwaits.left_sub, fun t ht => ?_⟩, hbelow.mono (by simp)⟩
    rcases hwaits.settled t ht with hleft | hdone | habove
    · exact .inl hleft
    · exact .inr (.inl (List.mem_append_left _ hdone))
    · cases habove
      exact .inr (.inl (by simp))

/-- The nodes of the stack, with the one above them, are a path against the edges. -/
theorem Linked.isChain {order : List Nat} {above : Option Nat} {stack : List Frame}
    (h : Linked g order above stack) :
    (above.toList ++ stack.map (·.node)).IsChain fun a b => a ∈ g.hardTargets b := by
  induction stack generalizing above with
  | nil => cases above <;> simp
  | cons f below ih =>
    obtain ⟨hwaits, hbelow⟩ := h
    have hchain := ih hbelow
    cases above with
    | none => exact hchain
    | some t => exact .cons_cons (hwaits.above_mem t rfl) hchain

-- ---------------------------------------------------------------------------
-- The walk
-- ---------------------------------------------------------------------------

def Walk.visited (w : Walk) : List Nat := w.order ++ w.stack.map (·.node)

/-- What holds between two steps of a walk that is about to put `above` on the stack, or nothing. -/
structure Walk.Sound (g : Graph) (above : Option Nat) (w : Walk) : Prop where
  onStack_iff : ∀ n, w.onStack.contains n = true ↔ n ∈ w.stack.map (·.node)
  done_iff : ∀ n, w.done.contains n = true ↔ n ∈ w.order
  nodup : w.visited.Nodup
  bounded : ∀ n ∈ w.visited, n < g.nodes.length
  ordered : ∀ n ∈ w.order, ∀ t ∈ g.hardTargets n, [t, n].Sublist w.order
  linked : Linked g w.order above w.stack

/-- The steps that a walk still takes at most: one for each target and each node to leave. -/
def Walk.cost (g : Graph) (w : Walk) : Nat :=
  (w.stack.map fun f => f.left.length + 1).sum +
    ∑ n ∈ Finset.range g.nodes.length with n ∉ w.visited, ((g.hardTargets n).length + 1)

/-- A step or run that ends in a walk with the property, or in the fault of a cycle. -/
def Ends (g : Graph) (post : Walk → Prop) : Result Walk → Prop
  | .ok w => post w
  | .error e => ∃ fault, e = .fault fault ∧ fault.kind = .cycle ∧ g.IsHardCycle fault.members

theorem Ends.bind {post post' : Walk → Prop} {r : Result Walk} {next : Walk → Result Walk}
    (h : g.Ends post r) (hnext : ∀ w, post w → g.Ends post' (next w)) :
    g.Ends post' (r >>= next) := by
  cases r with
  | ok w => exact hnext w h
  | error e => exact h

theorem Ends.mono {post post' : Walk → Prop} {r : Result Walk} (h : g.Ends post r)
    (himp : ∀ w, post w → post' w) : g.Ends post' r := by
  cases r with
  | ok w => exact himp w h
  | error e => exact h

variable {w : Walk} {node t : Nat} {left : List Nat} {below : List Frame}

theorem start_sound (g : Graph) : (start g).Sound g none where
  onStack_iff := by simp [start]
  done_iff := by simp [start]
  nodup := by simp [start, Walk.visited]
  bounded := by simp [start, Walk.visited]
  ordered := by simp [start]
  linked := trivial

theorem enter_visited_perm : (g.enter w t).visited.Perm (t :: w.visited) :=
  List.perm_middle

theorem Walk.Sound.enter (h : w.Sound g (some t)) (hnew : t ∉ w.visited)
    (hlt : t < g.nodes.length) : (g.enter w t).Sound g none where
  onStack_iff n := by simp [Graph.enter, h.onStack_iff]
  done_iff := h.done_iff
  nodup := enter_visited_perm.nodup_iff.mpr (List.nodup_cons.mpr ⟨hnew, h.nodup⟩)
  bounded n hn := by
    rcases List.mem_cons.mp (enter_visited_perm.mem_iff.mp hn) with rfl | hold
    · exact hlt
    · exact h.bounded n hold
  ordered := h.ordered
  linked := ⟨⟨by simp, fun _ => id, fun _ => .inl⟩, h.linked⟩

theorem cost_enter (hnew : t ∉ w.visited) (hlt : t < g.nodes.length) :
    (g.enter w t).cost g = w.cost g := by
  have herase : (Finset.range g.nodes.length).filter (· ∉ (g.enter w t).visited) =
      ((Finset.range g.nodes.length).filter (· ∉ w.visited)).erase t := by
    ext n
    simp only [Finset.mem_filter, Finset.mem_erase, enter_visited_perm.mem_iff, List.mem_cons]
    tauto
  have hmem : t ∈ (Finset.range g.nodes.length).filter (· ∉ w.visited) := by
    simp [hnew, hlt]
  have hsum := Finset.add_sum_erase _ (fun n => (g.hardTargets n).length + 1) hmem
  simp only [Walk.cost, herase, ← hsum]
  simp only [Graph.enter, List.map_cons, List.sum_cons]
  omega

theorem Walk.Sound.leave (h : w.Sound g none) (hstack : w.stack = ⟨node, []⟩ :: below) :
    Walk.Sound g none {
      stack := below
      onStack := w.onStack.erase node
      done := w.done.insert node
      order := w.order ++ [node] } := by
  have hlinked := h.linked
  rw [hstack] at hlinked
  obtain ⟨hwaits, hbelow⟩ := hlinked
  have hsame : w.visited = (w.order ++ [node]) ++ below.map (·.node) := by
    simp [Walk.visited, hstack]
  have hnodup : ((w.order ++ [node]) ++ below.map (·.node)).Nodup := hsame ▸ h.nodup
  have hnode : node ∉ below.map (·.node) := fun hmem =>
    (List.nodup_append.mp hnodup).2.2 node (by simp) node hmem rfl
  refine ⟨fun n => ?_, fun n => ?_, hnodup, fun n hn => ?_, fun n hn t ht => ?_, hbelow.settle⟩
  · rw [BitSet.contains_erase, h.onStack_iff, hstack, List.map_cons, List.mem_cons]
    constructor
    · rintro ⟨hne, heq | hmem⟩
      · exact absurd heq hne
      · exact hmem
    · intro hmem
      exact ⟨fun heq => hnode (heq ▸ hmem), .inr hmem⟩
  · rw [BitSet.contains_insert, h.done_iff, List.mem_append, List.mem_singleton, or_comm]
  · exact h.bounded n (by rwa [hsame])
  · rcases List.mem_append.mp hn with hold | hnew
    · exact (h.ordered n hold t ht).trans (List.sublist_append_left _ _)
    · rw [List.mem_singleton] at hnew
      subst hnew
      have hdone : t ∈ w.order := by simpa using hwaits.settled t ht
      exact (List.singleton_sublist.mpr hdone).append (.refl [n])

theorem Walk.Sound.reach (h : w.Sound g none) (hstack : w.stack = ⟨node, t :: left⟩ :: below) :
    Walk.Sound g (some t) { w with stack := ⟨node, left⟩ :: below } := by
  have hpath : w.stack.map (·.node) = node :: below.map (·.node) := by
    rw [hstack, List.map_cons]
  have hlinked := h.linked
  rw [hstack] at hlinked
  obtain ⟨hwaits, hbelow⟩ := hlinked
  refine ⟨by simpa [hpath] using h.onStack_iff, h.done_iff,
    by simpa [Walk.visited, hpath] using h.nodup, by simpa [Walk.visited, hpath] using h.bounded,
    h.ordered, ⟨?_, ?_, ?_⟩, hbelow⟩
  · rintro u ⟨⟩
    exact hwaits.left_sub List.mem_cons_self
  · exact fun u hu => hwaits.left_sub (List.mem_cons_of_mem t hu)
  · intro u hu
    rcases hwaits.settled u hu with hleft | hdone | habove
    · rcases List.mem_cons.mp hleft with rfl | hleft
      · exact .inr (.inr rfl)
      · exact .inl hleft
    · exact .inr (.inl hdone)
    · cases habove

theorem Walk.Sound.pass (h : w.Sound g (some t)) (hdone : t ∈ w.order) : w.Sound g none := by
  refine ⟨h.onStack_iff, h.done_iff, h.nodup, h.bounded, h.ordered, ?_⟩
  have hlinked := h.linked
  cases hstack : w.stack with
  | nil => trivial
  | cons f below =>
    rw [hstack] at hlinked
    obtain ⟨hwaits, hbelow⟩ := hlinked
    refine ⟨⟨by simp, hwaits.left_sub, fun u hu => ?_⟩, hbelow⟩
    rcases hwaits.settled u hu with hleft | hsettled | habove
    · exact .inl hleft
    · exact .inr (.inl hsettled)
    · cases habove
      exact .inr (.inl hdone)

theorem Walk.Sound.isHardCycle (hg : g.WellFormed) (h : w.Sound g (some t))
    (hmem : t ∈ w.stack.map (·.node)) : g.IsHardCycle (g.cycleMembers w.stack t) := by
  obtain ⟨before, behind, hsplit, hfirst⟩ :=
    List.eq_append_cons_of_mem (List.mem_reverse.mpr hmem)
  have hmembers : g.cycleMembers w.stack t = (t :: behind ++ [t]).map g.nameOf := by
    rw [cycleMembers, List.map_reverse, hsplit, List.dropWhile_append_of_pos]
    · simp
    · intro n hn
      have hne : n ≠ t := fun heq => hfirst (heq ▸ hn)
      simpa using hne
  have hpath : (t :: behind ++ [t]).IsChain fun a b => b ∈ g.hardTargets a := by
    have hchain := List.isChain_reverse.mpr h.linked.isChain
    rw [Option.toList_some, List.singleton_append, List.reverse_cons, hsplit,
      List.append_assoc] at hchain
    exact (List.isChain_append.mp hchain).2.1
  have hsub : (t :: behind).Sublist (w.stack.map (·.node)).reverse :=
    hsplit ▸ List.sublist_append_right _ _
  have hnodup : (t :: behind).Nodup :=
    hsub.nodup (List.nodup_reverse.mpr (List.nodup_append.mp h.nodup).2.1)
  have hlt : ∀ n ∈ t :: behind, n < g.nodes.length := fun n hn =>
    h.bounded n (List.mem_append_right _ (List.mem_reverse.mp (hsub.subset hn)))
  rw [hmembers]
  refine ⟨by simp, ?_, ?_, ?_⟩
  · rw [List.map_append, List.map_singleton, List.getLast?_concat]
    rfl
  · rw [← List.map_dropLast, List.dropLast_concat]
    exact hg.nodup_map_nameOf hnodup hlt
  · rw [List.isChain_map]
    exact hpath.imp fun _ _ => hg.hardEdge_nameOf

-- ---------------------------------------------------------------------------
-- Steps and runs
-- ---------------------------------------------------------------------------

/-- One step keeps the walk sound, makes it cheaper and forgets no node. -/
theorem advance_ends (hg : g.WellFormed) (h : w.Sound g none) (hne : w.stack ≠ []) :
    g.Ends (fun w' => w'.Sound g none ∧ w'.cost g < w.cost g ∧ w.visited ⊆ w'.visited)
      (g.advance w) := by
  match hstack : w.stack with
  | [] => exact absurd hstack hne
  | ⟨node, []⟩ :: below =>
    have hleave := h.leave hstack
    simp only [advance, hstack]
    refine ⟨hleave, ?_, by simp [Walk.visited, hstack]⟩
    simp [Walk.cost, Walk.visited, hstack]
  | ⟨node, t :: left⟩ :: below =>
    have hreach := h.reach hstack
    have hcost : Walk.cost g { w with stack := ⟨node, left⟩ :: below } < w.cost g := by
      simp [Walk.cost, Walk.visited, hstack]
    have hvisited : w.visited = Walk.visited { w with stack := ⟨node, left⟩ :: below } := by
      simp [Walk.visited, hstack]
    simp only [advance, hstack]
    by_cases hcycle : w.onStack.contains t = true
    · rw [if_pos hcycle]
      exact ⟨_, rfl, rfl, hreach.isHardCycle hg ((hreach.onStack_iff t).mp hcycle)⟩
    rw [if_neg hcycle]
    by_cases hdone : w.done.contains t = true
    · rw [if_pos hdone]
      exact ⟨hreach.pass ((h.done_iff t).mp hdone), hcost, fun n hn => hvisited ▸ hn⟩
    rw [if_neg hdone]
    have hnew : t ∉ Walk.visited { w with stack := ⟨node, left⟩ :: below } := by
      rw [← hvisited, Walk.visited, List.mem_append, not_or, ← h.done_iff, ← h.onStack_iff]
      exact ⟨hdone, hcycle⟩
    have hlt : t < g.nodes.length := by
      have hwaits := hreach.linked.1
      exact hg.hardTargets_lt (hwaits.above_mem t rfl)
    refine ⟨hreach.enter hnew hlt, ?_, fun n hn => ?_⟩
    · rwa [cost_enter hnew hlt]
    · exact enter_visited_perm.mem_iff.mpr (List.mem_cons_of_mem t (hvisited ▸ hn))

theorem descend_ends (hg : g.WellFormed) {fuel : Nat} (h : w.Sound g none)
    (hfuel : w.cost g ≤ fuel) :
    g.Ends (fun w' => w'.Sound g none ∧ w'.stack = [] ∧ w.visited ⊆ w'.visited)
      (g.descend fuel w) := by
  induction fuel generalizing w with
  | zero =>
    have hempty : w.stack = [] := by
      cases hstack : w.stack with
      | nil => rfl
      | cons f below =>
        simp [Walk.cost, hstack] at hfuel
    exact ⟨h, hempty, fun _ => id⟩
  | succ fuel ih =>
    rw [descend]
    split
    · rename_i hempty
      exact ⟨h, List.isEmpty_iff.mp hempty, fun _ => id⟩
    · rename_i hne
      refine (advance_ends hg h (by simpa using hne)).bind fun w' hw' => ?_
      obtain ⟨hsound, hcost, hsub⟩ := hw'
      exact (ih hsound (by omega)).mono fun w'' hw'' =>
        ⟨hw''.1, hw''.2.1, fun n hn => hw''.2.2 (hsub hn)⟩

structure Walk.Rests (g : Graph) (w : Walk) : Prop where
  sound : w.Sound g none
  stack_nil : w.stack = []

theorem cost_le_of_rests (hg : g.WellFormed) (hstack : w.stack = []) :
    w.cost g ≤ g.edges.length + g.nodes.length := by
  have hsum := hg.sum_length_hardTargets_le
  calc w.cost g
      ≤ ∑ n ∈ Finset.range g.nodes.length, ((g.hardTargets n).length + 1) := by
        simp only [Walk.cost, hstack, List.map_nil, List.sum_nil, Nat.zero_add]
        exact Finset.sum_le_sum_of_subset (Finset.filter_subset _ _)
    _ = (∑ n ∈ Finset.range g.nodes.length, (g.hardTargets n).length) + g.nodes.length := by
        simp [Finset.sum_add_distrib]
    _ ≤ g.edges.length + g.nodes.length := by omega

theorem walkFrom_ends (hg : g.WellFormed) (h : w.Rests g) {root : Nat}
    (hroot : root < g.nodes.length) :
    g.Ends (fun w' => w'.Rests g ∧ root ∈ w'.order ∧ w.order ⊆ w'.order) (g.walkFrom w root) := by
  have hvisited : ∀ {w : Walk}, w.stack = [] → w.visited = w.order := by
    intro w hstack
    simp [Walk.visited, hstack]
  rw [walkFrom]
  split
  · rename_i hdone
    exact ⟨h, (h.sound.done_iff root).mp hdone, fun _ => id⟩
  · rename_i hopen
    have hnew : root ∉ w.visited := by
      rwa [hvisited h.stack_nil, ← h.sound.done_iff]
    have hlinked : Linked g w.order (some root) w.stack := h.stack_nil ▸ trivial
    have henter := Walk.Sound.enter { h.sound with linked := hlinked } hnew hroot
    have hcost := cost_le_of_rests hg h.stack_nil
    rw [← cost_enter hnew hroot] at hcost
    refine (descend_ends hg henter (by omega)).mono ?_
    rintro w' ⟨hsound, hstack, hsub⟩
    rw [hvisited hstack] at hsub
    refine ⟨⟨hsound, hstack⟩, hsub ?_, fun n hn => hsub ?_⟩
    · exact enter_visited_perm.mem_iff.mpr List.mem_cons_self
    · exact enter_visited_perm.mem_iff.mpr
        (List.mem_cons_of_mem root (List.mem_append_left _ hn))

theorem foldlM_walkFrom_ends (hg : g.WellFormed) {roots : List Nat} (h : w.Rests g)
    (hroots : ∀ root ∈ roots, root < g.nodes.length) :
    g.Ends (fun w' => w'.Rests g ∧ roots ⊆ w'.order ∧ w.order ⊆ w'.order)
      (roots.foldlM g.walkFrom w) := by
  induction roots generalizing w with
  | nil => exact ⟨h, by simp, fun _ => id⟩
  | cons root rest ih =>
    obtain ⟨hroot, hrest⟩ := List.forall_mem_cons.mp hroots
    rw [List.foldlM_cons]
    refine (walkFrom_ends hg h hroot).bind fun w' ⟨hrests, hmem, hsub⟩ => ?_
    refine (ih hrests hrest).mono fun w'' ⟨hrests', hall, hsub'⟩ => ⟨hrests', ?_, ?_⟩
    · exact List.cons_subset.mpr ⟨hsub' hmem, hall⟩
    · exact fun n hn => hsub' (hsub hn)

/-- The whole walk leaves all nodes, or closes a cycle. -/
theorem walk_ends (hg : g.WellFormed) :
    g.Ends (fun w => w.Rests g ∧ List.range g.nodes.length ⊆ w.order)
      ((List.range g.nodes.length).foldlM g.walkFrom g.start) := by
  have hroots : ∀ root ∈ List.range g.nodes.length, root < g.nodes.length :=
    fun _ => List.mem_range.mp
  exact (foldlM_walkFrom_ends hg ⟨start_sound g, rfl⟩ hroots).mono fun w h => ⟨h.1, h.2.1⟩

end ClassHeader.Graph
