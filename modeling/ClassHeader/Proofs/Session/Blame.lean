import ClassHeader.Proofs.Resolve.Faults
import ClassHeader.Proofs.Session.Fresh

/-!
# The class at fault

When compiling stops before code is generated, other than at a cycle, the error is laid
on one class: the first in breadth-first order that cannot be loaded or whose
dependencies cannot be read, or else the first in topological order that cannot be
resolved. The provider may report anything that leaves it open which class is at fault.
-/

namespace ClassHeader

open Result

namespace Provider

variable {σ : Type}

def answer (provider : Provider (StateM σ)) (name : Bytes) (world : σ) : Result ClassFile :=
  ((provider.fetch name).run world).1 >>= (·.classFile name)

/-- The provider itself does not say which class is at fault. -/
def NamesNoClass (provider : Provider (StateM σ)) : Prop :=
  ∀ name world own f, ((provider.fetch name).run world).1 = .error own →
    own.fault? = some f → f.className = []

/-- The faults that the provider itself reports are of kinds that have a category. -/
def ReportsKnownKinds (provider : Provider (StateM σ)) : Prop :=
  ∀ name world own f, ((provider.fetch name).run world).1 = .error own →
    own.outside? = some f → f.kind.category ≠ .unclassified

def Allows (provider : Provider (StateM σ)) (kind : Kind) : Prop :=
  provider.ReportsKnownKinds → kind.category ≠ .unclassified

theorem allows_of_category (provider : Provider (StateM σ)) (kind : Kind)
    (h : kind.category ≠ .unclassified) : provider.Allows kind := fun _ => h

end Provider

-- ---------------------------------------------------------------------------
-- Errors of a class
-- ---------------------------------------------------------------------------

section

variable {allowed : Kind → Prop}

theorem ClassStream.classFile_onlyFails
    (hallowed : ∀ kind : Kind, kind.category ≠ .unclassified → allowed kind) (name : Bytes)
    (stream : ClassStream) : OnlyFails (Error.LaidOn allowed name) (stream.classFile name) := by
  refine .bind (.mapError (P := fun _ => True) (fun _ _ => trivial) fun e _ => ?_) fun data => ?_
  · exact ⟨_, rfl, hallowed _ nofun, rfl⟩
  have hread : OnlyFails Error.Nameless (do
      let c ← ClassFile.decodeValid data
      return (c, ← c.name)) :=
    .bind (ClassFile.decodeValid_onlyFails data) fun c =>
      .bind (c.pool.className_onlyFails _) fun _ => .pure _
  refine .bind (.mapError hread fun e he => (he.fits hallowed name).withClass hallowed _) ?_
  rintro ⟨c, declared⟩
  exact .bind (.ensure ⟨_, rfl, hallowed _ nofun, rfl⟩) fun _ => .pure _

end

theorem Provider.NamesNoClass.answer_fits {σ : Type} {provider : Provider (StateM σ)}
    (h : provider.NamesNoClass) (name : Bytes) (world : σ) :
    OnlyFails (Error.FitsOutside provider.Allows name) (provider.answer name world) := by
  refine .bind (fun own hown f hf => ⟨fun hkinds => hkinds name world own f hown hf, .inl ?_⟩)
    fun stream => ?_
  · exact h name world own f hown (Error.fault?_of_outside? hf)
  · intro e he
    exact (stream.classFile_onlyFails provider.allows_of_category name e he).fits.outside

-- ---------------------------------------------------------------------------
-- Cycles
-- ---------------------------------------------------------------------------

def Error.IsCycle (e : Error) : Prop := ∃ members, e = .cycle .collect members

namespace Graph

variable (g : Graph)

theorem advance_onlyFails (w : Walk) : OnlyFails Error.IsCycle (g.advance w) := by
  unfold advance
  split
  · exact .pure _
  · exact .pure _
  · exact .ite (.throw ⟨_, rfl⟩) (.ite (.pure _) (.pure _))

theorem descend_onlyFails (fuel : Nat) (w : Walk) :
    OnlyFails Error.IsCycle (g.descend fuel w) := by
  induction fuel generalizing w with
  | zero => exact .pure w
  | succ fuel ih => exact .ite (.pure w) (.bind (g.advance_onlyFails w) ih)

theorem topologicalOrder_onlyFails : OnlyFails Error.IsCycle g.topologicalOrder := by
  refine .bind (.foldlM (fun w root => ?_) _ _) fun _ => .pure _
  exact .ite (.pure w) (g.descend_onlyFails _ _)

end Graph

namespace Session

open Collect

variable {σ : Type} {options : SessionOptions} {ignored : List Bytes}
  {provider : Provider (StateM σ)} {policy : EdgePolicy} {main name : Bytes} {s later : Session}
  {world world' : σ} {e : Error}

-- ---------------------------------------------------------------------------
-- Loading
-- ---------------------------------------------------------------------------

/-- A class that is not remembered is asked for, and what fails is not remembered. -/
theorem run_load_error (h : ((load provider name).run.run s).run world =
    ((.error e, later), world')) :
    later = s ∧ s.classes.lookup name = none ∧ provider.answer name world = .error e ∧
      ((provider.fetch name).run world).2 = world' := by
  have hfetch : (((liftM (provider.fetch name) :
      SessionM (StateM σ) (Result ClassStream)).run.run s).run world) =
        ((.ok ((provider.fetch name).run world).1, s), ((provider.fetch name).run world).2) := rfl
  rw [load, run_bind_ok (run_get s world)] at h
  rw [Provider.answer]
  cases hcached : s.classes.lookup name with
  | some c =>
    rw [hcached] at h
    cases h
  | none =>
    rw [hcached] at h
    dsimp only at h
    rw [run_bind_ok hfetch] at h
    cases hstream : ((provider.fetch name).run world).1 with
    | error own =>
      rw [hstream] at h
      cases h
      exact ⟨rfl, rfl, rfl, rfl⟩
    | ok stream =>
      rw [hstream, run_bind_ok (run_ofExcept (.ok stream))] at h
      rw [ok_bind]
      cases hc : stream.classFile name with
      | error cause =>
        rw [hc] at h
        cases h
        exact ⟨rfl, rfl, rfl, rfl⟩
      | ok c =>
        rw [hc] at h
        cases h

theorem run_adapt {α : Type} {x : SessionM (StateM σ) α} {result : Result α}
    (h : (x.run.run s).run world = ((result, later), world')) (change : Error → Error) :
    ((ExceptT.adapt change x).run.run s).run world =
      ((result.mapError change, later), world') := by
  simp only [ExceptT.run_adapt, StateT.run_map, h]
  rfl

-- ---------------------------------------------------------------------------
-- Collecting
-- ---------------------------------------------------------------------------

/-- The error with which collecting stops at a class: the provider was asked for it last and what
it had is no such class, or the class is remembered and its dependencies cannot be read. -/
inductive Stops (policy : EdgePolicy) (provider : Provider (StateM σ)) (later : Session)
    (world' : σ) (name : Bytes) : Error → Prop
  | load {world : σ} {cause : Error} (hnew : later.classes.lookup name = none)
    (hanswer : provider.answer name world = .error cause)
    (hlast : ((provider.fetch name).run world).2 = world') :
    Stops policy provider later world' name (notLoaded name cause)
  | scan {c : ClassFile} {cause : Error} (hc : later.classes.lookup name = some c)
    (hscan : c.dependencyKinds policy = .error cause) :
    Stops policy provider later world' name (cause.withClass .collect name)

theorem scan_error {c : ClassFile} {state : State} (h : scan policy name state c = .error e) :
    ∃ cause, c.dependencyKinds policy = .error cause ∧ e = cause.withClass .collect name := by
  cases hkinds : c.dependencyKinds policy with
  | error cause =>
    rw [scan, hkinds] at h
    cases h
    exact ⟨cause, rfl, rfl⟩
  | ok found =>
    rw [scan, hkinds] at h
    cases h

theorem follow_remembered {c : ClassFile} {state : State} {graph : Graph}
    {visited queue done : List Bytes}
    (hprogress : ∀ final, s.Extends final →
      Progress final.remembered policy main done ⟨graph, visited, name :: queue⟩)
    (hc : s.classes.lookup name = some c)
    (hscan : scan policy name ⟨graph, visited, queue⟩ c = .ok state) (final : Session)
    (hfinal : s.Extends final) :
    Progress final.remembered policy main (done ++ [name]) state := by
  refine (hprogress final hfinal).follow ?_
  rw [Collect.follow, remembered_of_lookup (hfinal _ _ hc)]
  exact hscan

/-- Until a run through a session fails, it goes on like a run over what the session remembers. -/
theorem run_stops {left : Nat} {state : State} {done : List Bytes} (hs : s.Consistent ignored)
    (hprogress : ∀ final, s.Extends final → Progress final.remembered policy main done state)
    (hrun : ((ExceptT.mk (Collect.run (fun name => (load provider name).run) policy left
      state)).run.run s).run world = ((.error e, later), world')) :
    ∃ before name visited behind graph,
      (∀ final, later.Extends final →
        Progress final.remembered policy main before ⟨graph, visited, name :: behind⟩) ∧
      (Stops policy provider later world' name e ∨ done.length + left ≤ before.length) := by
  obtain ⟨graph, visited, queue⟩ := state
  induction left generalizing s graph visited queue done world with
  | zero =>
    cases queue with
    | nil => cases hrun
    | cons name queue =>
      cases hrun
      exact ⟨done, name, visited, queue, graph, hprogress, .inr le_rfl⟩
  | succ left ih =>
    cases queue with
    | nil => cases hrun
    | cons name queue =>
      rw [run_load_succ] at hrun
      rcases hload : ((load provider name).run.run s).run world with ⟨⟨first, middle⟩, world''⟩
      cases first with
      | error cause =>
        obtain ⟨rfl, hnew, hanswer, rfl⟩ := run_load_error hload
        rw [run_bind_error (run_adapt hload _)] at hrun
        cases hrun
        exact ⟨done, name, visited, queue, graph, hprogress, .inl (.load hnew hanswer rfl)⟩
      | ok c =>
        obtain ⟨hmiddle, hextends, hremembered⟩ := load_keeps provider name hs _ _ _ _ hload
        have hc := hremembered c rfl
        have hmiddleProgress := fun final (hfinal : middle.Extends final) =>
          hprogress final fun _ _ h => hfinal _ _ (hextends _ _ h)
        rw [run_bind_ok (run_adapt hload _)] at hrun
        cases hscan : scan policy name ⟨graph, visited, queue⟩ c with
        | error cause =>
          rw [hscan] at hrun
          cases hrun
          obtain ⟨cause, hkinds, rfl⟩ := scan_error hscan
          exact ⟨done, name, visited, queue, graph, hmiddleProgress, .inl (.scan hc hkinds)⟩
        | ok state =>
          rw [hscan, run_bind_ok (run_ofExcept (.ok state))] at hrun
          have hnext := follow_remembered hmiddleProgress hc hscan
          obtain ⟨before, stopped, seen, behind, graph', hbefore, hstops⟩ :=
            ih hmiddle _ _ _ hnext hrun
          refine ⟨before, stopped, seen, behind, graph', hbefore, ?_⟩
          refine hstops.imp_right fun hlong => ?_
          rw [List.length_append, List.length_singleton] at hlong
          omega

theorem Stops.laidOn {allowed : Kind → Prop}
    (hallowed : ∀ kind : Kind, kind.category ≠ .unclassified → allowed kind)
    (hanswer : ∀ world, OnlyFails (Error.FitsOutside allowed name) (provider.answer name world))
    (hlater : later.Consistent ignored) (h : Stops policy provider later world' name e) :
    e.LaidOn allowed name := by
  cases h with
  | load _ hfails _ => exact (hanswer _ _ hfails).notLoaded hallowed
  | scan hc hscan =>
    have hfits := ClassFile.dependencyKinds_onlyFails hallowed (hlater.declared hc) policy _ hscan
    exact hfits.withClass hallowed .collect

-- ---------------------------------------------------------------------------
-- Resolving
-- ---------------------------------------------------------------------------

def resolution (ignored : List Bytes) (s : Session) (name : Bytes) : Result ResolvedClass :=
  s.remembered name >>= fun c => Resolver.resolve ⟨ignored⟩ c

theorem run_resolve (provider : Provider (StateM σ)) {c : ClassFile}
    (hs : s.Consistent options.ignore) (hc : s.classes.lookup name = some c) (world : σ) :
    ∃ later, ((resolve options provider name).run.run s).run world =
        ((s.resolution options.ignore name, later), world) ∧
      later.Consistent options.ignore ∧ later.classes = s.classes := by
  have hload : ((load provider name).run.run s).run world = ((.ok c, s), world) := by
    rw [load, run_bind_ok (run_get s world), hc]
    rfl
  rw [resolution, remembered_of_lookup hc, ok_bind, resolve, run_bind_ok (run_get s world)]
  cases hcached : s.resolved.lookup name with
  | some r =>
    obtain ⟨c', hc', hr⟩ := hs.resolved hcached
    cases hc.symm.trans hc'
    exact ⟨s, by rw [hr]; rfl, hs, rfl⟩
  | none =>
    dsimp only
    rw [run_bind_ok hload]
    cases hr : Resolver.resolve ⟨options.ignore⟩ c with
    | error e => exact ⟨s, rfl, hs, rfl⟩
    | ok r => exact ⟨_, rfl, hs.rememberResolved hc hr, rfl⟩

theorem remembered_congr (h : later.classes = s.classes) : later.remembered = s.remembered := by
  funext name
  rw [remembered, remembered, h]

theorem resolution_congr (h : later.classes = s.classes) :
    later.resolution ignored = s.resolution ignored := by
  funext name
  rw [resolution, resolution, remembered_congr h]

theorem run_mapM_resolve (provider : Provider (StateM σ)) {names : List Bytes}
    (hs : s.Consistent options.ignore)
    (hnames : ∀ name ∈ names, ∃ c, s.classes.lookup name = some c) (world : σ) :
    ∃ later, ((names.mapM (resolve options provider)).run.run s).run world =
        ((names.mapM (s.resolution options.ignore), later), world) ∧
      later.Consistent options.ignore ∧ later.classes = s.classes := by
  induction names generalizing s with
  | nil => exact ⟨s, rfl, hs, rfl⟩
  | cons name names ih =>
    rw [List.forall_mem_cons] at hnames
    obtain ⟨⟨c, hc⟩, hnames⟩ := hnames
    obtain ⟨middle, hfirst, hmiddle, hclasses⟩ := run_resolve provider hs hc world
    rw [List.mapM_cons, List.mapM_cons]
    cases hr : s.resolution options.ignore name with
    | error e =>
      rw [hr] at hfirst
      exact ⟨middle, run_bind_error hfirst, hmiddle, hclasses⟩
    | ok r =>
      rw [hr] at hfirst
      obtain ⟨later, hrest, hlater, hclasses'⟩ := ih hmiddle (hclasses ▸ hnames)
      rw [resolution_congr hclasses] at hrest
      rw [run_bind_ok hfirst, ok_bind]
      cases hrs : names.mapM (s.resolution options.ignore) with
      | error e =>
        rw [hrs] at hrest
        exact ⟨later, run_bind_error hrest, hlater, hclasses'.trans hclasses⟩
      | ok rs =>
        rw [hrs] at hrest
        exact ⟨later, run_bind_ok hrest, hlater, hclasses'.trans hclasses⟩

theorem lookup_of_collectable (h : Collectable s.remembered policy name) :
    ∃ c, s.classes.lookup name = some c := by
  obtain ⟨c, hc, -⟩ := h
  rw [remembered] at hc
  cases hlookup : s.classes.lookup name with
  | none =>
    rw [hlookup] at hc
    cases hc
  | some c => exact ⟨c, rfl⟩

theorem resolution_onlyFails {allowed : Kind → Prop}
    (hallowed : ∀ kind : Kind, kind.category ≠ .unclassified → allowed kind)
    (hs : s.Consistent ignored) (hname : ∃ c, s.classes.lookup name = some c) :
    OnlyFails (Error.LaidOn allowed name) (s.resolution ignored name) := by
  obtain ⟨c, hc⟩ := hname
  rw [resolution, remembered_of_lookup hc, ok_bind]
  exact Resolver.resolve_onlyFails hallowed _ (hs.declared hc)

-- ---------------------------------------------------------------------------
-- Up to code generation
-- ---------------------------------------------------------------------------

def gather (options : SessionOptions) (provider : Provider (StateM σ)) (main : Bytes) :
    SessionM (StateM σ) (Graph × List Bytes × List ResolvedClass) := do
  let graph ← collect options provider main
  let order ← MonadExcept.ofExcept graph.topologicalOrder
  let classes ← order.mapM (resolve options provider)
  return (graph, order, classes)

def generate (options : SessionOptions) (graph : Graph) (order : List Bytes)
    (classes : List ResolvedClass) : SessionM (StateM σ) Compilation := do
  let node ← MonadExcept.ofExcept (Cpp.header ⟨options.comment, options.disassemble⟩ order classes)
  let printed := node.printInto .unlimited
  MonadExcept.ofExcept printed.result
  if options.verify then
    MonadExcept.ofExcept (Cpp.verify options.parser printed.sink.text)
  return { graph, order, source := printed.sink.text }

theorem compile_eq_gather_bind (options : SessionOptions) (provider : Provider (StateM σ))
    (main : Bytes) : compile options provider main =
      gather options provider main >>= fun (graph, order, classes) =>
        generate options graph order classes := by
  simp only [compile, gather, generate, bind_assoc, pure_bind]

/-- The class that compiling stops at. It is the first in breadth-first order that cannot be
collected, or all can be and it is the first in topological order that cannot be resolved. -/
inductive AtFault (options : SessionOptions) (provider : Provider (StateM σ)) (main : Bytes)
    (later : Session) (world' : σ) (e : Error) (name : Bytes) : Prop
  | collected {rounds : Nat} {before : List Bytes}
    (horder : before ++ [name] <+: discovered (dependenciesOf later.remembered) main rounds)
    (hbefore : ∀ earlier ∈ before, Collectable later.remembered options.policy earlier)
    (hstops : Stops options.policy provider later world' name e)
  | resolved {g : Graph} {before behind : List Bytes}
    (hgraph : ((ClassHeader.collect (some (recorded later.remembered)) options.policy
      provider.capacity main).run []).1 = .ok g)
    (horder : g.topologicalOrder = .ok (before ++ name :: behind))
    (hbefore : ∀ earlier ∈ before, ∃ r, later.resolution options.ignore earlier = .ok r)
    (hfails : later.resolution options.ignore name = .error e)

theorem length_le_of_progress {done : List Bytes} {state : State}
    (h : Progress s.remembered policy main done state) : done.length ≤ s.classes.length := by
  have hnodup : done.Nodup := by
    have hnodes := h.built.wellFormed.nodes_nodup
    rw [h.nodes_eq] at hnodes
    exact hnodes.of_append_left
  have hsub : done ⊆ s.classes.map Prod.fst := by
    intro name hname
    obtain ⟨c, hc⟩ := lookup_of_collectable (h.collectable name hname)
    obtain ⟨front, back, heq, -⟩ := List.lookup_eq_some_iff.mp hc
    simp [heq]
  simpa using (hnodup.subperm hsub).length_le

theorem collect_atFault (hs : s.Consistent options.ignore) (hprovider : provider.NamesNoClass)
    (hcapacity : later.classes.length ≤ provider.capacity)
    (hrun : ((collect options provider main).run.run s).run world = ((.error e, later), world')) :
    ∃ name, AtFault options provider main later world' e name ∧
      e.LaidOn provider.Allows name := by
  have hlater := (collect_keeps options provider main hs _ _ _ _ hrun).1
  obtain ⟨before, name, visited, behind, graph, hprogress, hstops⟩ :=
    run_stops hs (fun final _ => progress_start final.remembered options.policy main) hrun
  have hprogress := hprogress later (extends_refl later)
  have hlength := length_le_of_progress hprogress
  have hstops := hstops.resolve_right (by rw [List.length_nil]; omega)
  obtain ⟨rounds, hrounds⟩ := hprogress.breadthFirst
  rw [hprogress.nodes_eq] at hrounds
  refine ⟨name, .collected (.trans ⟨behind, ?_⟩ hrounds) hprogress.collectable hstops,
    hstops.laidOn provider.allows_of_category (hprovider.answer_fits name) hlater⟩
  simp

theorem resolve_atFault {g : Graph} {order : List Bytes} (hs : s.Consistent options.ignore)
    (hgraph : ((ClassHeader.collect (some (recorded s.remembered)) options.policy
      provider.capacity main).run []).1 = .ok g)
    (horder : g.topologicalOrder = .ok order)
    (hrun : ((order.mapM (resolve options provider)).run.run s).run world =
      ((.error e, later), world')) :
    ∃ name, AtFault options provider main later world' e name ∧
      e.LaidOn provider.Allows name := by
  have hended := collect_ended s.remembered options.policy provider.capacity main
  rcases hcollect : (ClassHeader.collect (some (recorded s.remembered)) options.policy
    provider.capacity main).run [] with ⟨result, asked⟩
  rw [hcollect] at hended
  obtain rfl : result = .ok g := by rw [← hgraph, hcollect]
  have hprogress := hended.2
  have hperm := (Graph.topologicalOrder_ok hprogress.built.wellFormed horder).1
  have hnames : ∀ name ∈ order, ∃ c, s.classes.lookup name = some c := fun name hname =>
    lookup_of_collectable (hprogress.collectable name (hperm.mem_iff.mp hname))
  obtain ⟨last, hresolve, -, hclasses⟩ := run_mapM_resolve provider hs hnames world
  rw [hresolve] at hrun
  obtain ⟨houtcome, -⟩ := Prod.mk.inj hrun
  obtain ⟨hfails, rfl⟩ := Prod.mk.inj houtcome
  obtain ⟨before, name, behind, rfl, hbefore, hname⟩ := exists_of_mapM_error hfails
  refine ⟨name, .resolved ?_ horder ?_ ?_, ?_⟩
  · rwa [remembered_congr hclasses]
  · rwa [resolution_congr hclasses]
  · rwa [resolution_congr hclasses]
  · exact resolution_onlyFails provider.allows_of_category hs (hnames name (by simp)) e hname

theorem gather_atFault (hs : s.Consistent options.ignore) (hprovider : provider.NamesNoClass)
    (hrun : ((gather options provider main).run.run s).run world = ((.error e, later), world'))
    (hcycle : ¬ e.IsCycle) (hcapacity : later.classes.length ≤ provider.capacity) :
    ∃ name, AtFault options provider main later world' e name ∧
      e.LaidOn provider.Allows name := by
  rw [gather] at hrun
  rcases hcollect : ((collect options provider main).run.run s).run world with
    ⟨⟨collected, middle⟩, world''⟩
  cases collected with
  | error cause =>
    rw [run_bind_error hcollect] at hrun
    cases hrun
    exact collect_atFault hs hprovider hcapacity hcollect
  | ok g =>
    obtain ⟨hmiddle, -, hagain⟩ := run_keeps provider options.policy (provider.capacity + 1)
      _ hs _ _ _ _ hcollect
    rw [run_bind_ok hcollect] at hrun
    cases horder : g.topologicalOrder with
    | error cause =>
      rw [horder, run_bind_error (run_ofExcept (.error cause))] at hrun
      cases hrun
      exact absurd (g.topologicalOrder_onlyFails _ horder) hcycle
    | ok order =>
      rw [horder, run_bind_ok (run_ofExcept (.ok order))] at hrun
      rcases hresolve : ((order.mapM (resolve options provider)).run.run middle).run world'' with
        ⟨⟨classes, last⟩, world₃⟩
      cases classes with
      | error cause =>
        rw [run_bind_error hresolve] at hrun
        cases hrun
        exact resolve_atFault hmiddle (hagain g rfl middle (extends_refl middle) []) horder hresolve
      | ok classes =>
        rw [run_bind_ok hresolve] at hrun
        cases hrun

/-- Where compiling stops before code generation, and not at a cycle, the fault that is reported
names the class at fault, and it has a category if those have one that the provider itself reports.
The limit has to be no less than the number of classes remembered in the end. -/
theorem compile_blames_class_at_fault (options : SessionOptions) (provider : Provider (StateM σ))
    (main : Bytes) {s later : Session} {world world' : σ} {e : Error}
    (hs : Reached options provider s) (hprovider : provider.NamesNoClass)
    (hrun : ((gather options provider main).run.run s).run world = ((.error e, later), world'))
    (hcycle : ¬ e.IsCycle) (hcapacity : later.classes.length ≤ provider.capacity) :
    ((compile options provider main).run.run s).run world = ((.error e, later), world') ∧
      ∃ fault, e.fault? = some fault ∧
        AtFault options provider main later world' e fault.className ∧
        (provider.ReportsKnownKinds →
          e.category ∈ [Category.format, .unsupported, .lookup, .configuration]) := by
  obtain ⟨_, hfault, fault, hsome, hkind, rfl⟩ :=
    gather_atFault hs.consistent hprovider hrun hcycle hcapacity
  refine ⟨?_, fault, hsome, hfault, fun hknown => ?_⟩
  · rw [compile_eq_gather_bind, run_bind_error hrun]
  · have hsame : e.category = fault.kind.category := by rw [Error.category, hsome]
    rw [hsame]
    cases hclass : fault.kind.category with
    | unclassified => exact absurd hclass (hkind hknown)
    | _ => decide

def orphan : Provider (StateM Nat) where
  fetch name := do
    modify (· + 1)
    return if name = text "A" then .ok { data := (referring (text "A") (text "B")).encode }
      else .error (.notFound .load (text "class") name)
  capacity := 1

theorem compile_blames_class_at_fault_orphan :
    ∃ e later fault, Reached {} orphan {} ∧ orphan.NamesNoClass ∧ orphan.ReportsKnownKinds ∧
      ¬ e.IsCycle ∧
      later.classes.length ≤ orphan.capacity ∧
      ((gather {} orphan (text "A")).run.run {}).run 0 = ((.error e, later), 2) ∧
      ((compile {} orphan (text "A")).run.run {}).run 0 = ((.error e, later), 2) ∧
      e.fault? = some fault ∧ fault.className = text "B" ∧
      e.category ∈ [Category.format, .unsupported, .lookup, .configuration] ∧
      e.category = .lookup ∧ AtFault {} orphan (text "A") later 2 e (text "B") := by
  have herror : (((gather {} orphan (text "A")).run.run {}).run 0).1.1.map (fun _ => ()) =
      .error (.fault {
        phase := .load, kind := .notFound, className := text "B"
        detail := text "class \"B\" not found" }) := by
    decide +kernel
  have hrest : (((gather {} orphan (text "A")).run.run {}).run 0).1.2.classes.length = 1 ∧
      (((gather {} orphan (text "A")).run.run {}).run 0).2 = 2 := by
    decide +kernel
  rcases hrun : ((gather {} orphan (text "A")).run.run {}).run 0 with ⟨⟨result, later⟩, requests⟩
  rw [hrun] at herror hrest
  obtain ⟨hlength, rfl⟩ := hrest
  cases result with
  | ok gathered => cases herror
  | error e =>
    cases herror
    have hown : ∀ name world own, ((orphan.fetch name).run world).1 = .error own →
        own = .notFound .load (text "class") name := by
      intro name world own hown
      by_cases hname : name = text "A"
      · simp [orphan, hname] at hown
      · simp [orphan, hname] at hown
        cases hown
        rfl
    have hprovider : orphan.NamesNoClass := by
      intro name world own f hfails hf
      cases hown name world own hfails
      cases hf
      rfl
    have hkinds : orphan.ReportsKnownKinds := by
      intro name world own f hfails hf
      cases hown name world own hfails
      cases hf
      nofun
    have hcycle : ¬ Error.IsCycle (.fault {
        phase := .load, kind := .notFound, className := text "B"
        detail := text "class \"B\" not found" }) := by
      rintro ⟨members, hmembers⟩
      cases hmembers
    obtain ⟨hcompile, fault, hsome, hfault, hcategory⟩ := compile_blames_class_at_fault {} orphan
      (text "A") .fresh hprovider hrun hcycle hlength.le
    cases hsome
    exact ⟨_, later, _, .fresh, hprovider, hkinds, hcycle, hlength.le, rfl, hcompile, rfl, rfl,
      hcategory hkinds, rfl, hfault⟩

def inventive : Provider (StateM Unit) where
  fetch _ := return .error (.fault { phase := .load, kind := .other (text "offline") })
  capacity := 0

/-- A kind that the provider has made up has no category. -/
theorem compile_error_of_invented_kind :
    ∃ e, inventive.NamesNoClass ∧ ¬ e.IsCycle ∧
      ((gather {} inventive (text "A")).run.run {}).run () = ((.error e, {}), ()) ∧
      ((compile {} inventive (text "A")).run.run {}).run () = ((.error e, {}), ()) ∧
      e.category = .unclassified := by
  refine ⟨.fault { phase := .load, kind := .other (text "offline"), className := text "A" },
    ?_, ?_, rfl, rfl, rfl⟩
  · rintro name world own f ⟨⟩ ⟨⟩
    rfl
  · rintro ⟨members, hmembers⟩
    cases hmembers

end Session
end ClassHeader
