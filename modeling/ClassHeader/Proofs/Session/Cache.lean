import ClassHeader.Session
import ClassHeader.Proofs.Graph.Collect

/-!
# What a session remembers

A session only ever gains classes, and what it remembers under a name belongs to
the class that declares the name. Collecting through a session finds the graph
that collecting from its memory alone finds again.
-/

namespace ClassHeader.Session

variable {σ α β : Type} {ignored : List Bytes} {s : Session}

/-- Everything remembered under a name belongs to the class that declares this name. -/
structure Consistent (ignored : List Bytes) (s : Session) : Prop where
  declared : ∀ {name c}, s.classes.lookup name = some c → c.name = .ok name
  resolved : ∀ {name r}, s.resolved.lookup name = some r →
    ∃ c, s.classes.lookup name = some c ∧ Resolver.resolve ⟨ignored⟩ c = .ok r

/-- Classes are neither forgotten nor replaced. -/
def Extends (s later : Session) : Prop :=
  ∀ name c, s.classes.lookup name = some c → later.classes.lookup name = some c

theorem extends_refl (s : Session) : s.Extends s := fun _ _ h => h

theorem consistent_fresh (ignored : List Bytes) : Consistent ignored {} where
  declared h := by cases h
  resolved h := by cases h

-- ---------------------------------------------------------------------------
-- Steps of a session
-- ---------------------------------------------------------------------------

/-- Whatever the provider does, `x` leaves a consistent session that extends `s`, and its result
is as `Q` says. -/
def Keeps (ignored : List Bytes) (x : SessionM (StateM σ) α) (s : Session)
    (Q : α → Session → Prop) : Prop :=
  ∀ world result later world', (x.run.run s).run world = ((result, later), world') →
    later.Consistent ignored ∧ s.Extends later ∧ ∀ a, result = .ok a → Q a later

theorem Keeps.bind {x : SessionM (StateM σ) α} {f : α → SessionM (StateM σ) β}
    {Q : α → Session → Prop} {R : β → Session → Prop} (hx : Keeps ignored x s Q)
    (hf : ∀ a later, later.Consistent ignored → s.Extends later → Q a later →
      Keeps ignored (f a) later R) : Keeps ignored (x >>= f) s R := by
  intro world result later world' hrun
  rcases hfirst : (x.run.run s).run world with ⟨⟨first, middle⟩, world''⟩
  obtain ⟨hmiddle, hextends, hQ⟩ := hx _ _ _ _ hfirst
  simp only [ExceptT.run_bind, StateT.run_bind, hfirst] at hrun
  cases first with
  | error e =>
    cases hrun
    exact ⟨hmiddle, hextends, by simp⟩
  | ok a =>
    obtain ⟨hlater, hextends', hR⟩ := hf a middle hmiddle hextends (hQ a rfl) _ _ _ _ hrun
    exact ⟨hlater, fun _ _ h => hextends' _ _ (hextends _ _ h), hR⟩

section

variable (hs : s.Consistent ignored)

include hs

theorem Keeps.pure {a : α} {Q : α → Session → Prop} (h : Q a s) :
    Keeps (σ := σ) ignored (pure a) s Q := by
  intro world result later world' hrun
  cases hrun
  refine ⟨hs, extends_refl s, ?_⟩
  rintro _ ⟨⟩
  exact h

theorem Keeps.ofExcept (r : Result α) :
    Keeps (σ := σ) ignored (MonadExcept.ofExcept r) s fun a later => r = .ok a ∧ s = later := by
  intro world result later world' hrun
  cases r with
  | error e =>
    cases hrun
    exact ⟨hs, extends_refl s, by simp⟩
  | ok a =>
    cases hrun
    refine ⟨hs, extends_refl s, ?_⟩
    rintro _ ⟨⟩
    exact ⟨rfl, rfl⟩

theorem Keeps.get : Keeps (σ := σ) ignored get s fun a later => s = a ∧ s = later := by
  intro world result later world' hrun
  cases hrun
  refine ⟨hs, extends_refl s, ?_⟩
  rintro _ ⟨⟩
  exact ⟨rfl, rfl⟩

theorem Keeps.lift (act : StateM σ α) :
    Keeps ignored (liftM act : SessionM (StateM σ) α) s fun _ later => s = later := by
  intro world result later world' hrun
  cases hrun
  exact ⟨hs, extends_refl s, fun _ _ => rfl⟩

end

theorem Keeps.modify {change : Session → Session} (hlater : (change s).Consistent ignored)
    (hextends : s.Extends (change s)) :
    Keeps (σ := σ) ignored (modify change) s fun _ later => change s = later := by
  intro world result later world' hrun
  cases hrun
  exact ⟨hlater, hextends, fun _ _ => rfl⟩

theorem Keeps.adapt {x : SessionM (StateM σ) α} {Q : α → Session → Prop}
    (hx : Keeps ignored x s Q) (change : Error → Error) :
    Keeps ignored (ExceptT.adapt change x) s Q := by
  intro world result later world' hrun
  rcases hfirst : (x.run.run s).run world with ⟨⟨first, middle⟩, world''⟩
  obtain ⟨hmiddle, hextends, hQ⟩ := hx _ _ _ _ hfirst
  simp only [ExceptT.run_adapt, StateT.run_map, hfirst] at hrun
  cases hrun
  refine ⟨hmiddle, hextends, fun a ha => hQ a ?_⟩
  exact Result.mapError_ok_iff.mp ha

theorem Keeps.mapM {f : α → SessionM (StateM σ) β} {Q : α → β → Session → Prop}
    (hf : ∀ a s, s.Consistent ignored → Keeps ignored (f a) s (Q a))
    (hmono : ∀ {a b s later}, s.Extends later → Q a b s → Q a b later) (as : List α)
    (hs : s.Consistent ignored) :
    Keeps ignored (as.mapM f) s fun bs later => List.Forall₂ (fun a b => Q a b later) as bs := by
  induction as generalizing s with
  | nil =>
    rw [List.mapM_nil]
    exact Keeps.pure hs List.Forall₂.nil
  | cons a as ih =>
    rw [List.mapM_cons]
    refine Keeps.bind (hf a s hs) fun b middle hmiddle _ hb => ?_
    refine Keeps.bind (ih hmiddle) fun bs later hlater hextends hbs => ?_
    exact Keeps.pure hlater (List.Forall₂.cons (hmono hextends hb) hbs)

-- ---------------------------------------------------------------------------
-- Loading and resolving
-- ---------------------------------------------------------------------------

variable {name : Bytes} {c : ClassFile}

theorem name_of_classFile {stream : ClassStream} (h : stream.classFile name = .ok c) :
    c.name = .ok name := by
  simp only [ClassStream.classFile, Result.bind_ok_iff, Result.mapError_ok_iff,
    Result.ensure_ok_iff, Result.pure_ok_iff] at h
  obtain ⟨data, _, ⟨c, declared⟩, ⟨decoded, _, found, hfound, hpair⟩, _, rfl, rfl⟩ := h
  cases hpair
  exact hfound

theorem lookup_cons_of_ne {key other : Bytes} (h : other ≠ key) (a : α)
    (entries : List (Bytes × α)) : ((key, a) :: entries).lookup other = entries.lookup other := by
  rw [List.lookup_cons, beq_false_of_ne h]

theorem extends_remember (hnew : s.classes.lookup name = none) :
    s.Extends { s with classes := (name, c) :: s.classes } := by
  intro other d hother
  have hne : other ≠ name := by
    rintro rfl
    rw [hnew] at hother
    cases hother
  rw [lookup_cons_of_ne hne]
  exact hother

theorem Consistent.remember (hs : s.Consistent ignored) (hnew : s.classes.lookup name = none)
    (hname : c.name = .ok name) :
    Consistent ignored { s with classes := (name, c) :: s.classes } where
  declared {other d} h := by
    by_cases hother : other = name
    · subst hother
      cases List.lookup_cons_self.symm.trans h
      exact hname
    · rw [lookup_cons_of_ne hother] at h
      exact hs.declared h
  resolved {other r} h := by
    obtain ⟨d, hd, hr⟩ := hs.resolved h
    exact ⟨d, extends_remember hnew _ _ hd, hr⟩

theorem Consistent.rememberResolved {r : ResolvedClass} (hs : s.Consistent ignored)
    (hc : s.classes.lookup name = some c) (hr : Resolver.resolve ⟨ignored⟩ c = .ok r) :
    Consistent ignored { s with resolved := (name, r) :: s.resolved } where
  declared h := hs.declared h
  resolved {other r'} h := by
    by_cases hother : other = name
    · subst hother
      cases List.lookup_cons_self.symm.trans h
      exact ⟨c, hc, hr⟩
    · rw [lookup_cons_of_ne hother] at h
      exact hs.resolved h

theorem load_keeps (provider : Provider (StateM σ)) (name : Bytes)
    (hs : s.Consistent ignored) :
    Keeps ignored (load provider name) s fun c later => later.classes.lookup name = some c := by
  unfold load
  refine Keeps.bind (Keeps.get hs) ?_
  rintro _ _ - - ⟨rfl, rfl⟩
  cases hcached : s.classes.lookup name with
  | some c => exact Keeps.pure hs hcached
  | none =>
    refine Keeps.bind (Keeps.lift hs _) ?_
    rintro fetched _ - - rfl
    refine Keeps.bind (Keeps.ofExcept hs _) ?_
    rintro stream _ - - ⟨-, rfl⟩
    refine Keeps.bind (Keeps.ofExcept hs _) ?_
    rintro c _ - - ⟨hc, rfl⟩
    refine Keeps.bind (Keeps.modify (hs.remember hcached (name_of_classFile hc))
      (extends_remember hcached)) ?_
    rintro _ _ hlater - rfl
    exact Keeps.pure hlater List.lookup_cons_self

theorem resolve_keeps (options : SessionOptions) (provider : Provider (StateM σ)) (name : Bytes)
    (hs : s.Consistent options.ignore) :
    Keeps options.ignore (resolve options provider name) s fun r later =>
      ∃ c, later.classes.lookup name = some c ∧ Resolver.resolve ⟨options.ignore⟩ c = .ok r := by
  unfold resolve
  refine Keeps.bind (Keeps.get hs) ?_
  rintro _ _ - - ⟨rfl, rfl⟩
  cases hcached : s.resolved.lookup name with
  | some r => exact Keeps.pure hs (hs.resolved hcached)
  | none =>
    refine Keeps.bind (load_keeps provider name hs) fun c middle hmiddle _ hc => ?_
    refine Keeps.bind (Keeps.ofExcept hmiddle _) ?_
    rintro r _ - - ⟨hr, rfl⟩
    refine Keeps.bind (Keeps.modify (hmiddle.rememberResolved hc hr) fun _ _ h => h) ?_
    rintro _ _ hlater - rfl
    exact Keeps.pure hlater ⟨c, hc, hr⟩

-- ---------------------------------------------------------------------------
-- Collecting
-- ---------------------------------------------------------------------------

def remembered (s : Session) (name : Bytes) : Result ClassFile :=
  match s.classes.lookup name with
  | some c => .ok c
  | none => .error (.notFound .load (text "class") name)

theorem remembered_of_lookup (h : s.classes.lookup name = some c) : s.remembered name = .ok c := by
  rw [remembered, h]

theorem run_load_succ (provider : Provider (StateM σ)) (policy : EdgePolicy) (left : Nat)
    (graph : Graph) (name : Bytes) (visited queue : List Bytes) :
    ExceptT.mk (Collect.run (fun name => (load provider name).run) policy (left + 1)
        ⟨graph, visited, name :: queue⟩) = (do
      let c ← (load provider name).adapt (Collect.notLoaded name)
      let state ← MonadExcept.ofExcept (Collect.scan policy name ⟨graph, visited, queue⟩ c)
      ExceptT.mk (Collect.run (fun name => (load provider name).run) policy left state) :
        SessionM (StateM σ) Graph) := by
  apply ExceptT.ext
  simp only [ExceptT.run_mk, ExceptT.run_bind, ExceptT.run_adapt, Collect.run, map_eq_pure_bind,
    bind_assoc, pure_bind]
  refine bind_congr fun loaded => ?_
  cases loaded with
  | error e => rfl
  | ok c =>
    cases h : Collect.scan policy name ⟨graph, visited, queue⟩ c with
    | error e => simp only [Except.mapError, h]; rfl
    | ok state => simp only [Except.mapError, h]; rfl

/-- What a run through the session finds, a run over any later memory finds again. -/
theorem run_keeps (provider : Provider (StateM σ)) (policy : EdgePolicy) (left : Nat)
    (state : Collect.State) (hs : s.Consistent ignored) :
    Keeps ignored
      (ExceptT.mk (Collect.run (fun name => (load provider name).run) policy left state)) s
      fun g later => ∀ final, later.Extends final → ∀ asked,
        ((Collect.run (Collect.recorded final.remembered) policy left state).run asked).1 =
          .ok g := by
  obtain ⟨graph, visited, queue⟩ := state
  induction left generalizing s graph visited queue with
  | zero =>
    cases queue with
    | nil => exact Keeps.pure hs fun _ _ _ => rfl
    | cons name queue =>
      intro world result later world' hrun
      cases hrun
      exact ⟨hs, extends_refl s, by simp⟩
  | succ left ih =>
    cases queue with
    | nil => exact Keeps.pure hs fun _ _ _ => rfl
    | cons name queue =>
      rw [run_load_succ]
      refine Keeps.bind (Keeps.adapt (load_keeps provider name hs) _) ?_
      intro c middle hmiddle _ hc
      refine Keeps.bind (Keeps.ofExcept hmiddle _) ?_
      rintro state _ - - ⟨hscan, rfl⟩
      intro world result later world' hrun
      obtain ⟨hlater, hextends, hagain⟩ :=
        ih hmiddle state.graph state.visited state.queue _ _ _ _ hrun
      refine ⟨hlater, hextends, fun g hg final hfinal asked => ?_⟩
      -- The class that was loaded here is still the one remembered at the end.
      have hfollow : Collect.follow final.remembered policy name ⟨graph, visited, queue⟩ =
          .ok state := by
        rw [Collect.follow, remembered_of_lookup (hfinal _ _ (hextends _ _ hc))]
        exact hscan
      rw [Collect.run_recorded, hfollow]
      exact hagain g hg final hfinal _

theorem collect_keeps (options : SessionOptions) (provider : Provider (StateM σ)) (main : Bytes)
    (hs : s.Consistent ignored) :
    Keeps ignored (collect options provider main) s fun g later =>
      ∀ final, later.Extends final →
        Collect.Progress final.remembered options.policy main g.nodes ⟨g, g.nodes, []⟩ := by
  intro world result later world' hrun
  obtain ⟨hlater, hextends, hagain⟩ := run_keeps provider options.policy (provider.capacity + 1)
    { graph := Graph.empty.addNode main, visited := [main], queue := [main] } hs _ _ _ _ hrun
  refine ⟨hlater, hextends, fun g hg final hfinal => ?_⟩
  have hended := Collect.collect_ended final.remembered options.policy provider.capacity main
  have hrecorded := hagain g hg final hfinal []
  rcases hcollect : (ClassHeader.collect (some (Collect.recorded final.remembered)) options.policy
    provider.capacity main).run [] with ⟨found, asked⟩
  rw [← ClassHeader.collect, hcollect] at hrecorded
  rw [hcollect] at hended
  cases hrecorded
  exact hended.2

end ClassHeader.Session
