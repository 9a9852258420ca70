import ClassHeader.Proofs.Session.Compile

/-!
# Sessions answer like fresh ones

A provider that has one answer for each name makes every request a function of the
request alone: what a session was asked before, whether it was granted or not, does
not show in its answers. What it remembers only saves requests to the provider, which
is asked no more than once for a class that loads.
-/

namespace ClassHeader

namespace Provider

def classFile (provider : Provider Id) (name : Bytes) : Result ClassFile :=
  (provider.fetch name).run >>= (·.classFile name)

/-- The provider that writes down the names it is asked for. -/
def recorded (provider : Provider Id) : Provider (StateM (List Bytes)) where
  fetch name := do
    modify (· ++ [name])
    return (provider.fetch name).run
  capacity := provider.capacity

def resolved (provider : Provider Id) (ignored : List Bytes) (name : Bytes) :
    Result ResolvedClass :=
  provider.classFile name >>= fun c => Resolver.resolve ⟨ignored⟩ c

def graph (provider : Provider Id) (policy : EdgePolicy) (main : Bytes) : Result Graph :=
  ((collect (some (Collect.recorded provider.classFile)) policy provider.capacity main).run []).1

def compilation (provider : Provider Id) (options : SessionOptions) (main : Bytes) :
    Result Compilation := do
  let graph ← provider.graph options.policy main
  let order ← graph.topologicalOrder
  let classes ← order.mapM (provider.resolved options.ignore)
  let node ← Cpp.header ⟨options.comment, options.disassemble⟩ order classes
  (node.printInto .unlimited).result
  if options.verify then
    Cpp.verify options.parser node.text
  return { graph, order, source := node.text }

theorem classFile_ok {provider : Provider Id} {name : Bytes} {c : ClassFile}
    (h : provider.classFile name = .ok c) :
    ∃ stream data, (provider.fetch name).run = .ok stream ∧ stream.contents = .ok data ∧
      ClassFile.decode data = .ok c ∧ c.validate = .ok () ∧ c.name = .ok name := by
  simp only [classFile, ClassStream.classFile, ClassFile.decodeValid, Result.bind_ok_iff,
    Result.mapError_ok_iff, Result.ensure_ok_iff, Result.pure_ok_iff] at h
  obtain ⟨stream, hfetch, data, hdata, ⟨c, declared⟩,
    ⟨decoded, ⟨_, hdecode, _, hvalid, rfl⟩, found, hfound, hpair⟩, _, rfl, rfl⟩ := h
  cases hpair
  exact ⟨stream, data, hfetch, hdata, hdecode, hvalid, hfound⟩

theorem graph_ok {provider : Provider Id} {policy : EdgePolicy} {main : Bytes} {g : Graph}
    (h : provider.graph policy main = .ok g) :
    ∃ asked,
      (collect (some (Collect.recorded provider.classFile)) policy provider.capacity main).run [] =
        (.ok g, asked) ∧
      Collect.Progress provider.classFile policy main g.nodes ⟨g, g.nodes, []⟩ := by
  have hended := Collect.collect_ended provider.classFile policy provider.capacity main
  rcases hrun : (collect (some (Collect.recorded provider.classFile)) policy
    provider.capacity main).run [] with ⟨result, asked⟩
  rw [graph, hrun] at h
  rw [hrun] at hended
  subst h
  exact ⟨asked, rfl, hended.2⟩

theorem compilation_ok_iff {provider : Provider Id} {options : SessionOptions} {main : Bytes}
    {compilation : Compilation} :
    provider.compilation options main = .ok compilation ↔ ∃ graph order classes node,
      provider.graph options.policy main = .ok graph ∧ graph.topologicalOrder = .ok order ∧
      order.mapM (provider.resolved options.ignore) = .ok classes ∧
      Cpp.header ⟨options.comment, options.disassemble⟩ order classes = .ok node ∧
      (options.verify = true → Cpp.verify options.parser node.text = .ok ()) ∧
      compilation = { graph, order, source := node.text } := by
  -- Printing never fails.
  have hcheck : ∀ (node : Cpp.Node) (c : Compilation), (do
      (node.printInto .unlimited).result
      if options.verify then
        Cpp.verify options.parser node.text
      return c) = .ok compilation ↔
        (options.verify = true → Cpp.verify options.parser node.text = .ok ()) ∧
          compilation = c := by
    intro node c
    rw [Cpp.Node.result_printInto, Result.ok_bind]
    cases options.verify with
    | false => simpa using eq_comm
    | true =>
      rw [if_pos rfl]
      cases Cpp.verify options.parser node.text with
      | error e => exact ⟨nofun, fun h => nomatch h.1 rfl⟩
      | ok u => simpa using eq_comm
  simp only [Provider.compilation, Result.bind_ok_iff, hcheck]
  constructor
  · rintro ⟨graph, hgraph, order, horder, classes, hclasses, node, hnode, hrest⟩
    exact ⟨graph, order, classes, node, hgraph, horder, hclasses, hnode, hrest⟩
  · rintro ⟨graph, order, classes, node, hgraph, horder, hclasses, hnode, hrest⟩
    exact ⟨graph, hgraph, order, horder, classes, hclasses, node, hnode, hrest⟩

end Provider

namespace Session

variable {α β : Type} {ignored : List Bytes} {provider : Provider Id} {s : Session}
  {asked : List Bytes} {name : Bytes}

/-- What is remembered is what the provider has, and a class that loads was asked for no more than
once, and then is remembered. -/
structure Faithful (ignored : List Bytes) (provider : Provider Id) (s : Session)
    (asked : List Bytes) : Prop where
  classes : ∀ {name c}, s.classes.lookup name = some c → provider.classFile name = .ok c
  resolved : ∀ {name r}, s.resolved.lookup name = some r → provider.resolved ignored name = .ok r
  once : ∀ {name c}, provider.classFile name = .ok c → asked.count name ≤ 1
  kept : ∀ {name c}, provider.classFile name = .ok c → name ∈ asked →
    s.classes.lookup name = some c

theorem faithful_fresh (ignored : List Bytes) (provider : Provider Id) :
    Faithful ignored provider {} [] where
  classes h := by cases h
  resolved h := by cases h
  once _ := Nat.zero_le _
  kept _ h := by cases h

-- ---------------------------------------------------------------------------
-- Steps of a session
-- ---------------------------------------------------------------------------

section

variable {σ : Type} {x : SessionM (StateM σ) α} {f : α → SessionM (StateM σ) β}
  {middle : Session} {world world' : σ}

theorem run_get (s : Session) (world : σ) :
    (((get : SessionM (StateM σ) Session).run.run s).run world) = ((.ok s, s), world) := rfl

theorem run_ofExcept (r : Result α) :
    (((MonadExcept.ofExcept r : SessionM (StateM σ) α).run.run s).run world) = ((r, s), world) := by
  cases r <;> rfl

theorem run_bind_of {x : StateT Session (StateM σ) α} {f : α → StateT Session (StateM σ) β} {a : α}
    (h : (x.run s).run world = ((a, middle), world')) :
    ((x >>= f).run s).run world = ((f a).run middle).run world' := by
  simp only [StateT.run_bind, h]
  rfl

theorem run_bind_ok {a : α} (h : (x.run.run s).run world = ((.ok a, middle), world')) :
    ((x >>= f).run.run s).run world = ((f a).run.run middle).run world' := by
  rw [ExceptT.run_bind, run_bind_of h]

theorem run_bind_error {e : Error} (h : (x.run.run s).run world = ((.error e, middle), world')) :
    ((x >>= f).run.run s).run world = ((.error e, middle), world') := by
  rw [ExceptT.run_bind, run_bind_of h]
  rfl

end

/-- From any faithful session on, `x` gives the result `r` and leaves a faithful session. -/
def Yields (ignored : List Bytes) (provider : Provider Id)
    (x : SessionM (StateM (List Bytes)) α) (r : Result α) : Prop :=
  ∀ s asked, Faithful ignored provider s asked → ∃ later asked',
    (x.run.run s).run asked = ((r, later), asked') ∧ Faithful ignored provider later asked'

theorem Yields.pure (a : α) : Yields ignored provider (pure a) (.ok a) :=
  fun s asked hs => ⟨s, asked, rfl, hs⟩

theorem Yields.ofExcept (r : Result α) : Yields ignored provider (MonadExcept.ofExcept r) r := by
  intro s asked hs
  exact ⟨s, asked, run_ofExcept r, hs⟩

theorem Yields.bind {x : SessionM (StateM (List Bytes)) α}
    {f : α → SessionM (StateM (List Bytes)) β} {r : Result α} {g : α → Result β}
    (hx : Yields ignored provider x r) (hf : ∀ a, Yields ignored provider (f a) (g a)) :
    Yields ignored provider (x >>= f) (r >>= g) := by
  intro s asked hs
  obtain ⟨middle, asked', hrun, hmiddle⟩ := hx s asked hs
  cases r with
  | error e => exact ⟨middle, asked', run_bind_error hrun, hmiddle⟩
  | ok a =>
    rw [run_bind_ok hrun]
    exact hf a middle asked' hmiddle

theorem Yields.adapt {x : SessionM (StateM (List Bytes)) α} {r : Result α}
    (hx : Yields ignored provider x r) (change : Error → Error) :
    Yields ignored provider (ExceptT.adapt change x) (r.mapError change) := by
  intro s asked hs
  obtain ⟨later, asked', hrun, hlater⟩ := hx s asked hs
  refine ⟨later, asked', ?_, hlater⟩
  simp only [ExceptT.run_adapt, StateT.run_map, hrun]
  rfl

theorem Yields.mapM {f : α → SessionM (StateM (List Bytes)) β} {g : α → Result β}
    (hf : ∀ a, Yields ignored provider (f a) (g a)) (as : List α) :
    Yields ignored provider (as.mapM f) (as.mapM g) := by
  induction as with
  | nil =>
    rw [List.mapM_nil, List.mapM_nil]
    exact Yields.pure []
  | cons a as ih =>
    rw [List.mapM_cons, List.mapM_cons]
    refine Yields.bind (hf a) fun b => Yields.bind ih fun bs => ?_
    exact Yields.pure (b :: bs)

-- ---------------------------------------------------------------------------
-- Loading and resolving
-- ---------------------------------------------------------------------------

theorem Faithful.refused (hs : Faithful ignored provider s asked)
    (hfails : ∀ c, provider.classFile name ≠ .ok c) :
    Faithful ignored provider s (asked ++ [name]) where
  classes := hs.classes
  resolved := hs.resolved
  once {other c} hother := by
    have hne : other ≠ name := by
      rintro rfl
      exact hfails c hother
    rw [List.count_append, List.count_singleton, beq_false_of_ne hne.symm]
    exact hs.once hother
  kept {other c} hother hasked := by
    rcases List.mem_append.mp hasked with hasked | hlast
    · exact hs.kept hother hasked
    · exact absurd hother (List.mem_singleton.mp hlast ▸ hfails c)

theorem Faithful.remember (hs : Faithful ignored provider s asked)
    (hnew : s.classes.lookup name = none) {c : ClassFile} (hc : provider.classFile name = .ok c) :
    Faithful ignored provider { s with classes := (name, c) :: s.classes } (asked ++ [name]) where
  classes {other d} h := by
    by_cases hother : other = name
    · subst hother
      cases List.lookup_cons_self.symm.trans h
      exact hc
    · rw [lookup_cons_of_ne hother] at h
      exact hs.classes h
  resolved := hs.resolved
  once {other d} hother := by
    by_cases hne : other = name
    · subst hne
      have hnot : other ∉ asked := fun hasked => by
        cases hnew.symm.trans (hs.kept hother hasked)
      rw [List.count_append, List.count_eq_zero_of_not_mem hnot, List.count_singleton_self]
    · rw [List.count_append, List.count_singleton, beq_false_of_ne (Ne.symm hne)]
      exact hs.once hother
  kept {other d} hother hasked := by
    by_cases hne : other = name
    · subst hne
      cases hc.symm.trans hother
      exact List.lookup_cons_self
    · rw [lookup_cons_of_ne hne]
      refine hs.kept hother ((List.mem_append.mp hasked).resolve_right fun hlast => ?_)
      exact hne (List.mem_singleton.mp hlast)

theorem Faithful.rememberResolved (hs : Faithful ignored provider s asked) {r : ResolvedClass}
    (hr : provider.resolved ignored name = .ok r) :
    Faithful ignored provider { s with resolved := (name, r) :: s.resolved } asked where
  classes := hs.classes
  resolved {other r'} h := by
    by_cases hother : other = name
    · subst hother
      cases List.lookup_cons_self.symm.trans h
      exact hr
    · rw [lookup_cons_of_ne hother] at h
      exact hs.resolved h
  once := hs.once
  kept := hs.kept

/-- Loading asks the provider only for a class that is not remembered. -/
theorem run_load (provider : Provider Id) (name : Bytes) (s : Session) (asked : List Bytes) :
    ((load provider.recorded name).run.run s).run asked =
      match s.classes.lookup name, provider.classFile name with
      | some c, _ => ((.ok c, s), asked)
      | none, .ok c => ((.ok c, { s with classes := (name, c) :: s.classes }), asked ++ [name])
      | none, .error e => ((.error e, s), asked ++ [name]) := by
  have hfetch : (((liftM (provider.recorded.fetch name) :
      SessionM (StateM (List Bytes)) (Result ClassStream)).run.run s).run asked) =
        ((.ok (provider.fetch name).run, s), asked ++ [name]) := rfl
  rw [load, run_bind_ok (run_get s asked), Provider.classFile]
  cases s.classes.lookup name with
  | some c => rfl
  | none =>
    rw [run_bind_ok hfetch]
    cases (provider.fetch name).run with
    | error e => rfl
    | ok stream =>
      cases hc : stream.classFile name with
      | error e =>
        rw [run_bind_ok (run_ofExcept (.ok stream)), hc, Result.ok_bind, hc]
        rfl
      | ok c =>
        rw [run_bind_ok (run_ofExcept (.ok stream)), hc, Result.ok_bind, hc]
        rfl

theorem load_yields (ignored : List Bytes) (provider : Provider Id) (name : Bytes) :
    Yields ignored provider (load provider.recorded name) (provider.classFile name) := by
  intro s asked hs
  rw [run_load]
  cases hcached : s.classes.lookup name with
  | some c =>
    rw [hs.classes hcached]
    exact ⟨s, asked, rfl, hs⟩
  | none =>
    cases hc : provider.classFile name with
    | error e => exact ⟨s, asked ++ [name], rfl, hs.refused (by simp [hc])⟩
    | ok c => exact ⟨_, asked ++ [name], rfl, hs.remember hcached hc⟩

theorem resolve_yields (options : SessionOptions) (provider : Provider Id) (name : Bytes) :
    Yields options.ignore provider (resolve options provider.recorded name)
      (provider.resolved options.ignore name) := by
  intro s asked hs
  rw [resolve, run_bind_ok (run_get s asked)]
  cases hcached : s.resolved.lookup name with
  | some r =>
    rw [hs.resolved hcached]
    exact ⟨s, asked, rfl, hs⟩
  | none =>
    obtain ⟨middle, asked', hload, hmiddle⟩ := load_yields options.ignore provider name s asked hs
    have hresolved : provider.resolved options.ignore name =
        provider.classFile name >>= fun c => Resolver.resolve ⟨options.ignore⟩ c := rfl
    cases hc : provider.classFile name with
    | error e =>
      rw [hc] at hload hresolved
      exact ⟨middle, asked', by rw [hresolved]; exact run_bind_error hload, hmiddle⟩
    | ok c =>
      rw [hc, Result.ok_bind] at hresolved
      rw [hc] at hload
      dsimp only
      rw [run_bind_ok hload]
      cases hr : Resolver.resolve ⟨options.ignore⟩ c with
      | error e =>
        rw [hresolved, hr]
        exact ⟨middle, asked', rfl, hmiddle⟩
      | ok r =>
        rw [hr] at hresolved
        rw [hresolved]
        exact ⟨_, asked', rfl, hmiddle.rememberResolved hresolved⟩

-- ---------------------------------------------------------------------------
-- Collecting and compiling
-- ---------------------------------------------------------------------------

theorem fst_run_recorded (load : Bytes → Result ClassFile) (policy : EdgePolicy) (left : Nat)
    (graph : Graph) (name : Bytes) (visited queue before : List Bytes) :
    ((Collect.run (Collect.recorded load) policy (left + 1) ⟨graph, visited, name :: queue⟩).run
        before).1 = (do
      let c ← (load name).mapError (Collect.notLoaded name)
      let state ← Collect.scan policy name ⟨graph, visited, queue⟩ c
      ((Collect.run (Collect.recorded load) policy left state).run (before ++ [name])).1) := by
  rw [Collect.run_recorded, Collect.follow]
  cases load name with
  | error e => rfl
  | ok c =>
    simp only [Except.mapError, Result.ok_bind]
    cases Collect.scan policy name ⟨graph, visited, queue⟩ c <;> rfl

theorem run_yields (ignored : List Bytes) (provider : Provider Id) (policy : EdgePolicy)
    (left : Nat) (state : Collect.State) (before : List Bytes) :
    Yields ignored provider
      (ExceptT.mk (Collect.run (fun name => (load provider.recorded name).run) policy left state))
      ((Collect.run (Collect.recorded provider.classFile) policy left state).run before).1 := by
  obtain ⟨graph, visited, queue⟩ := state
  induction left generalizing graph visited queue before with
  | zero =>
    cases queue with
    | nil => exact Yields.pure graph
    | cons name queue => exact Yields.ofExcept (.error (Collect.beyondLimit name))
  | succ left ih =>
    cases queue with
    | nil => exact Yields.pure graph
    | cons name queue =>
      rw [run_load_succ, fst_run_recorded]
      refine Yields.bind (Yields.adapt (load_yields ignored provider name) _) fun c => ?_
      refine Yields.bind (Yields.ofExcept _) fun state => ?_
      exact ih (before ++ [name]) state.graph state.visited state.queue

theorem collect_yields (ignored : List Bytes) (options : SessionOptions) (provider : Provider Id)
    (main : Bytes) :
    Yields ignored provider (collect options provider.recorded main)
      (provider.graph options.policy main) :=
  run_yields ignored provider options.policy (provider.capacity + 1) _ []

theorem compile_yields (options : SessionOptions) (provider : Provider Id) (main : Bytes) :
    Yields options.ignore provider (compile options provider.recorded main)
      (provider.compilation options main) := by
  unfold compile Provider.compilation
  refine Yields.bind (collect_yields _ options provider main) fun graph => ?_
  refine Yields.bind (Yields.ofExcept _) fun order => ?_
  refine Yields.bind (Yields.mapM (resolve_yields options provider) order) fun classes => ?_
  refine Yields.bind (Yields.ofExcept _) fun node => ?_
  refine Yields.bind (Yields.ofExcept _) fun _ => ?_
  dsimp only
  split_ifs
  · exact Yields.bind (Yields.ofExcept _) fun _ => Yields.pure _
  · exact Yields.pure _

-- ---------------------------------------------------------------------------
-- Requests
-- ---------------------------------------------------------------------------

inductive Reply where
  | classFile (c : ClassFile)
  | resolved (r : ResolvedClass)
  | graph (g : Graph)
  | compilation (c : Compilation)

def Request.reply {m : Type → Type} [Monad m] (options : SessionOptions) (provider : Provider m) :
    Request → SessionM m Reply
  | .load name => return .classFile (← Session.load provider name)
  | .resolve name => return .resolved (← Session.resolve options provider name)
  | .collect main => return .graph (← Session.collect options provider main)
  | .compile main => return .compilation (← Session.compile options provider main)

/-- The replies to requests on one session, one after another. A request that fails does not keep
the next from being served. -/
def replies {m : Type → Type} [Monad m] (options : SessionOptions) (provider : Provider m)
    (requests : List Request) : StateT Session m (List (Result Reply)) :=
  requests.mapM fun request => (request.reply options provider).run

def onFresh (x : SessionM (StateM (List Bytes)) α) : Result α := ((x.run.run {}).run []).1.1

theorem Yields.onFresh {x : SessionM (StateM (List Bytes)) α} {r : Result α}
    (h : Yields ignored provider x r) : onFresh x = r := by
  obtain ⟨later, asked, hrun, -⟩ := h {} [] (faithful_fresh ignored provider)
  rw [Session.onFresh, hrun]

theorem reply_yields (options : SessionOptions) (provider : Provider Id) (request : Request) :
    Yields options.ignore provider (request.reply options provider.recorded)
      (onFresh (request.reply options provider.recorded)) := by
  have hyields : ∃ r,
      Yields options.ignore provider (request.reply options provider.recorded) r := by
    cases request with
    | load name =>
      exact ⟨_, Yields.bind (load_yields _ provider name) fun _ => Yields.pure _⟩
    | resolve name =>
      exact ⟨_, Yields.bind (resolve_yields options provider name) fun _ => Yields.pure _⟩
    | collect main =>
      exact ⟨_, Yields.bind (collect_yields _ options provider main) fun _ => Yields.pure _⟩
    | compile main =>
      exact ⟨_, Yields.bind (compile_yields options provider main) fun _ => Yields.pure _⟩
  obtain ⟨r, hr⟩ := hyields
  rw [hr.onFresh]
  exact hr

theorem run_replies (options : SessionOptions) (provider : Provider Id) (requests : List Request)
    (hs : Faithful options.ignore provider s asked) :
    ∃ later asked', ((replies options provider.recorded requests).run s).run asked =
        ((requests.map fun request => onFresh (request.reply options provider.recorded), later),
          asked') ∧
      Faithful options.ignore provider later asked' := by
  induction requests generalizing s asked with
  | nil => exact ⟨s, asked, rfl, hs⟩
  | cons request requests ih =>
    obtain ⟨middle, asked', hrun, hmiddle⟩ := reply_yields options provider request s asked hs
    obtain ⟨later, asked'', hrest, hlater⟩ := ih hmiddle
    refine ⟨later, asked'', ?_, hlater⟩
    have hcons : replies options provider.recorded (request :: requests) = (do
        let first ← (request.reply options provider.recorded).run
        let rest ← replies options provider.recorded requests
        return first :: rest) := List.mapM_cons
    rw [hcons, run_bind_of hrun, run_bind_of hrest]
    rfl

/-- However many requests a session has served, granted or not: each reply is the one that a fresh
session gives, the provider was asked no more than once for a class that loads, and every class that
is remembered under a name is the valid class file that the provider has under it, declares it, and
resolves to what is remembered as its resolved form. -/
theorem replies_as_on_fresh (options : SessionOptions) (provider : Provider Id)
    (requests : List Request) :
    ∃ later asked, ((replies options provider.recorded requests).run {}).run [] =
        ((requests.map fun request => onFresh (request.reply options provider.recorded), later),
          asked) ∧
      (∀ name c, onFresh (load provider.recorded name) = .ok c → asked.count name ≤ 1) ∧
      (∀ name c, later.classes.lookup name = some c → ∃ stream data,
        (provider.fetch name).run = .ok stream ∧ stream.contents = .ok data ∧
          ClassFile.decode data = .ok c ∧ c.validate = .ok () ∧ c.name = .ok name) ∧
      ∀ name r, later.resolved.lookup name = some r →
        onFresh (resolve options provider.recorded name) = .ok r := by
  obtain ⟨later, asked, hrun, hlater⟩ := run_replies options provider requests
    (faithful_fresh options.ignore provider)
  refine ⟨later, asked, hrun, fun name c hc => ?_, fun name c hc => ?_, fun name r hr => ?_⟩
  · rw [(load_yields options.ignore provider name).onFresh] at hc
    exact hlater.once hc
  · exact Provider.classFile_ok (hlater.classes hc)
  · rw [(resolve_yields options provider name).onFresh]
    exact hlater.resolved hr

end Session
end ClassHeader
