import ClassHeader.Error
import Mathlib

/-!
# Results

When composed results succeed and with what, and which errors they can have: one
law for each way of composing them.
-/

namespace ClassHeader

/-- The outermost fault of the error is of this phase and kind. -/
def Error.Reports (e : Error) (phase : Phase) (kind : Kind) : Prop :=
  ∃ fault, e.fault? = some fault ∧ fault.phase = phase ∧ fault.kind = kind

namespace Result

variable {α β : Type}

@[simp] theorem bind_ok_iff {r : Result α} {next : α → Result β} {b : β} :
    r >>= next = .ok b ↔ ∃ a, r = .ok a ∧ next a = .ok b := by
  cases r <;> simp [bind, Except.bind]

theorem ok_bind (a : α) (next : α → Result β) : Except.ok a >>= next = next a := rfl

@[simp] theorem pure_ok_iff {a b : α} : (pure a : Result α) = .ok b ↔ a = b := by
  simp [pure, Except.pure]

@[simp] theorem throw_ok_iff {e : Error} {a : α} : (throw e : Result α) = .ok a ↔ False :=
  ⟨fun h => (nomatch h), False.elim⟩

@[simp] theorem ensure_ok_iff {c : Prop} [Decidable c] {e : Error} {u : Unit} :
    (ensure c e : Result Unit) = .ok u ↔ c := by
  by_cases h : c <;> simp [ensure, h]

@[simp] theorem mapError_ok_iff {change : Error → Error} {r : Result α} {a : α} :
    r.mapError change = .ok a ↔ r = .ok a := by
  cases r <;> simp [Except.mapError]

theorem ite_ok {c : Prop} [Decidable c] {r r' : Result α} {a : α}
    (h : (if c then r else r') = .ok a) : r = .ok a ∨ r' = .ok a := by
  split at h
  · exact .inl h
  · exact .inr h

theorem mapM_ok_iff {f : α → Result β} {as : List α} {bs : List β} :
    as.mapM f = .ok bs ↔ List.Forall₂ (fun a b => f a = .ok b) as bs := by
  induction as generalizing bs with
  | nil =>
    rw [List.mapM_nil, pure_ok_iff, List.forall₂_nil_left_iff]
    exact eq_comm
  | cons a as ih =>
    simp only [List.mapM_cons, bind_ok_iff, pure_ok_iff, List.forall₂_cons_left_iff]
    constructor
    · rintro ⟨b, hb, others, hothers, rfl⟩
      exact ⟨b, others, hb, ih.mp hothers, rfl⟩
    · rintro ⟨b, others, hb, hothers, rfl⟩
      exact ⟨b, hb, others, ih.mpr hothers, rfl⟩

theorem forM_ok_iff {f : α → Result Unit} {as : List α} {u : Unit} :
    as.forM f = .ok u ↔ ∀ a ∈ as, f a = .ok () := by
  induction as with
  | nil => exact ⟨fun _ => by simp, fun _ => rfl⟩
  | cons a as ih =>
    rw [List.forM_eq_forM] at ih ⊢
    rw [List.forM_cons, bind_ok_iff, List.forall_mem_cons, ← ih]
    exact ⟨fun ⟨_, ha, has⟩ => ⟨ha, has⟩, fun ⟨ha, has⟩ => ⟨(), ha, has⟩⟩

/-- A check of each element that only names its number in the error. -/
theorem forM_zipIdx_ok_iff {f : α × Nat → Result Unit} {P : α → Prop} {as : List α} {u : Unit}
    (h : ∀ a i, f (a, i) = .ok () ↔ P a) : as.zipIdx.forM f = .ok u ↔ ∀ a ∈ as, P a := by
  rw [forM_ok_iff]
  constructor
  · intro hall a ha
    rw [← List.zipIdx_map_fst 0 as, List.mem_map] at ha
    obtain ⟨⟨a, i⟩, hmem, rfl⟩ := ha
    exact (h a i).mp (hall _ hmem)
  · rintro hall ⟨a, i⟩ hmem
    refine (h a i).mpr (hall a ?_)
    rw [← List.zipIdx_map_fst 0 as]
    exact List.mem_map_of_mem hmem

theorem forIn_ok {check : α → Unit → Result (ForInStep Unit)} {as : List α}
    (h : ∀ a ∈ as, check a () = .ok (.yield ())) : forIn as () check = .ok () := by
  induction as with
  | nil => rfl
  | cons a as ih =>
    rw [List.forall_mem_cons] at h
    rw [List.forIn_cons, h.1, ok_bind]
    exact ih h.2

theorem exists_mapM {f : α → Result β} {as : List α} (h : ∀ a ∈ as, ∃ b, f a = .ok b) :
    ∃ bs, as.mapM f = .ok bs := by
  induction as with
  | nil => exact ⟨[], rfl⟩
  | cons a as ih =>
    obtain ⟨b, hb⟩ := h a List.mem_cons_self
    obtain ⟨bs, hbs⟩ := ih fun a' ha' => h a' (List.mem_cons_of_mem a ha')
    exact ⟨b :: bs, mapM_ok_iff.mpr (.cons hb (mapM_ok_iff.mp hbs))⟩

theorem exists_of_forall₂ {R : α → β → Prop} {as : List α} {bs : List β} {a : α}
    (h : List.Forall₂ R as bs) (ha : a ∈ as) : ∃ b ∈ bs, R a b := by
  induction h with
  | nil => cases ha
  | @cons first b as bs hfirst _ ih =>
    rcases List.mem_cons.mp ha with rfl | ha
    · exact ⟨b, List.mem_cons_self, hfirst⟩
    · obtain ⟨b', hb', hok⟩ := ih ha
      exact ⟨b', List.mem_cons_of_mem _ hb', hok⟩

theorem exists_mem_of_mapM {f : α → Result β} {as : List α} {bs : List β} {a : α}
    (h : as.mapM f = .ok bs) (ha : a ∈ as) : ∃ b ∈ bs, f a = .ok b :=
  exists_of_forall₂ (mapM_ok_iff.mp h) ha

theorem exists_of_mem_mapM {f : α → Result β} {as : List α} {bs : List β} {b : β}
    (h : as.mapM f = .ok bs) (hb : b ∈ bs) : ∃ a ∈ as, f a = .ok b :=
  exists_of_forall₂ (mapM_ok_iff.mp h).flip hb

theorem exists_mapM_of_perm {f : α → Result β} {as as' : List α} {bs : List β}
    (hperm : as'.Perm as) (h : as.mapM f = .ok bs) :
    ∃ bs', as'.mapM f = .ok bs' ∧ bs'.Perm bs := by
  obtain ⟨bs', hbs', hperm'⟩ := List.perm_comp_forall₂ hperm (mapM_ok_iff.mp h)
  exact ⟨bs', mapM_ok_iff.mpr hbs', hperm'⟩

theorem exists_of_mapM_error {f : α → Result β} {as : List α} {e : Error}
    (h : as.mapM f = .error e) : ∃ before a behind, as = before ++ a :: behind ∧
      (∀ earlier ∈ before, ∃ b, f earlier = .ok b) ∧ f a = .error e := by
  induction as with
  | nil => cases h
  | cons first as ih =>
    rw [List.mapM_cons] at h
    cases hfirst : f first with
    | error e' =>
      rw [hfirst] at h
      cases h
      exact ⟨[], first, as, rfl, by simp, hfirst⟩
    | ok b =>
      rw [hfirst, ok_bind] at h
      cases hrest : as.mapM f with
      | ok bs =>
        rw [hrest] at h
        cases h
      | error e' =>
        rw [hrest] at h
        cases h
        obtain ⟨before, a, behind, rfl, hbefore, ha⟩ := ih hrest
        exact ⟨first :: before, a, behind, rfl,
          List.forall_mem_cons.mpr ⟨⟨b, hfirst⟩, hbefore⟩, ha⟩

/-- Elements of a kind fail, all others do not; then the first of the kind is the one that fails. -/
theorem mapM_error_of_find? {f : α → Result β} {bad : α → Bool} {as : List α} {a : α} {e : Error}
    (hfind : as.find? bad = some a) (hok : ∀ a ∈ as, bad a = false → ∃ b, f a = .ok b)
    (he : f a = .error e) : as.mapM f = .error e := by
  induction as with
  | nil => cases hfind
  | cons first as ih =>
    rw [List.forall_mem_cons] at hok
    rw [List.mapM_cons]
    cases hbad : bad first with
    | true =>
      rw [List.find?_cons_of_pos hbad] at hfind
      cases hfind
      rw [he]
      rfl
    | false =>
      obtain ⟨b, hb⟩ := hok.1 hbad
      rw [List.find?_cons_of_neg (by simp [hbad])] at hfind
      rw [hb, ok_bind, ih hfind hok.2]
      rfl

theorem flatMap_of_mapM {γ : Type} {f : α → Result β} {as : List α} {bs : List β}
    {view : β → List γ} {expected : α → List γ} (h : as.mapM f = .ok bs)
    (hview : ∀ a b, f a = .ok b → view b = expected a) :
    bs.flatMap view = as.flatMap expected := by
  induction mapM_ok_iff.mp h with
  | nil => rfl
  | cons hfirst hrest ih =>
    rw [List.flatMap_cons, List.flatMap_cons, hview _ _ hfirst, ih (mapM_ok_iff.mpr hrest)]

-- ---------------------------------------------------------------------------
-- Work on a state
-- ---------------------------------------------------------------------------

/-- A failure keeps the state that was reached. -/
theorem run_bind {σ : Type} (x : ExceptT Error (StateM σ) α) (f : α → ExceptT Error (StateM σ) β)
    (s : σ) :
    (x >>= f).run.run s =
      match x.run.run s with
      | (.ok a, later) => (f a).run.run later
      | (.error e, later) => (.error e, later) := by
  rw [ExceptT.run_bind, StateT.run_bind]
  rcases x.run.run s with ⟨result, later⟩
  cases result <;> rfl

theorem run_ofExcept {σ : Type} (r : Result α) (s : σ) :
    (MonadExcept.ofExcept r : ExceptT Error (StateM σ) α).run.run s = (r, s) := by
  cases r <;> rfl

-- ---------------------------------------------------------------------------
-- Values
-- ---------------------------------------------------------------------------

def OnlyGives (P : α → Prop) (r : Result α) : Prop := ∀ a, r = .ok a → P a

section

variable {P : α → Prop}

theorem OnlyGives.pure {a : α} (h : P a) : OnlyGives P (pure a : Result α) := by
  rintro _ ⟨⟩
  exact h

theorem OnlyGives.throw (e : Error) : OnlyGives P (throw e : Result α) := by
  rintro _ ⟨⟩

theorem OnlyGives.bind {r : Result β} {next : β → Result α} (hnext : ∀ b, OnlyGives P (next b)) :
    OnlyGives P (r >>= next) := by
  intro a ha
  obtain ⟨b, -, hb⟩ := bind_ok_iff.mp ha
  exact hnext b a hb

theorem OnlyGives.ite {c : Prop} [Decidable c] {r r' : Result α} (hr : c → OnlyGives P r)
    (hr' : OnlyGives P r') : OnlyGives P (if c then r else r') := by
  split
  · exact hr ‹c›
  · exact hr'

end

-- ---------------------------------------------------------------------------
-- Errors
-- ---------------------------------------------------------------------------

def OnlyFails (P : Error → Prop) (r : Result α) : Prop := ∀ e, r = .error e → P e

variable {P : Error → Prop}

theorem OnlyFails.pure (a : α) : OnlyFails P (pure a : Result α) := by
  rintro e ⟨⟩

theorem OnlyFails.throw {e : Error} (h : P e) : OnlyFails P (throw e : Result α) := by
  rintro _ ⟨⟩
  exact h

theorem OnlyFails.bind {r : Result α} {next : α → Result β} (hr : OnlyFails P r)
    (hnext : ∀ a, OnlyFails P (next a)) : OnlyFails P (r >>= next) := by
  intro e he
  cases r with
  | error e' =>
    cases he
    exact hr e rfl
  | ok a => exact hnext a e he

theorem OnlyFails.ite {c : Prop} [Decidable c] {r r' : Result α} (hr : OnlyFails P r)
    (hr' : OnlyFails P r') : OnlyFails P (if c then r else r') := by
  split
  · exact hr
  · exact hr'

theorem OnlyFails.ensure {c : Prop} [Decidable c] {e : Error} (h : P e) :
    OnlyFails P (ensure c e : Result Unit) :=
  .ite (.pure ()) (.throw h)

theorem OnlyFails.mapError {Q : Error → Prop} {r : Result α} {change : Error → Error}
    (hr : OnlyFails P r) (h : ∀ e, P e → Q (change e)) : OnlyFails Q (r.mapError change) := by
  intro e he
  cases r with
  | error e' =>
    cases he
    exact h e' (hr e' rfl)
  | ok a => cases he

theorem OnlyFails.mapM {f : α → Result β} (hf : ∀ a, OnlyFails P (f a)) (as : List α) :
    OnlyFails P (as.mapM f) := by
  induction as with
  | nil => exact .pure []
  | cons a as ih =>
    rw [List.mapM_cons]
    exact .bind (hf a) fun _ => .bind ih fun _ => .pure _

theorem OnlyFails.forM {f : α → Result Unit} (hf : ∀ a, OnlyFails P (f a)) (as : List α) :
    OnlyFails P (as.forM f) := by
  induction as with
  | nil => exact .pure ()
  | cons a as ih => exact .bind (hf a) fun _ => ih

theorem OnlyFails.foldlM {f : β → α → Result β} (hf : ∀ b a, OnlyFails P (f b a)) (as : List α)
    (b : β) : OnlyFails P (as.foldlM f b) := by
  induction as generalizing b with
  | nil => exact .pure b
  | cons a as ih =>
    rw [List.foldlM_cons]
    exact .bind (hf b a) ih

-- ---------------------------------------------------------------------------
-- Pairs of results
-- ---------------------------------------------------------------------------

/-- Both results are the same error, or both succeed and `R` holds of their values. -/
inductive Paired (R : α → β → Prop) : Result α → Result β → Prop
  | ok {a : α} {b : β} (h : R a b) : Paired R (.ok a) (.ok b)
  | error (e : Error) : Paired R (.error e) (.error e)

section

variable {γ δ : Type} {R : α → β → Prop} {S : γ → δ → Prop}

theorem Paired.error_or_ok {r : Result α} {r' : Result β} (h : Paired R r r') :
    (∃ e, r = .error e ∧ r' = .error e) ∨ ∃ a b, r = .ok a ∧ r' = .ok b ∧ R a b := by
  cases h with
  | ok h => exact .inr ⟨_, _, rfl, rfl, h⟩
  | error e => exact .inl ⟨e, rfl, rfl⟩

theorem Paired.bind {r : Result α} {r' : Result β} {next : α → Result γ} {next' : β → Result δ}
    (h : Paired R r r') (hnext : ∀ a b, R a b → Paired S (next a) (next' b)) :
    Paired S (r >>= next) (r' >>= next') := by
  cases h with
  | ok h => exact hnext _ _ h
  | error e => exact .error e

theorem Paired.behind (r : Result α) {next : α → Result γ} {next' : α → Result δ}
    (hnext : ∀ a, Paired S (next a) (next' a)) : Paired S (r >>= next) (r >>= next') := by
  cases r with
  | ok a => exact hnext a
  | error e => exact .error e

theorem Paired.mapError {r : Result α} {r' : Result β} (h : Paired R r r')
    (change : Error → Error) : Paired R (r.mapError change) (r'.mapError change) := by
  cases h with
  | ok h => exact .ok h
  | error e => exact .error _

theorem Paired.mapM {as : List γ} {f : γ → Result α} {g : γ → Result β}
    (h : ∀ a, Paired R (f a) (g a)) : Paired (List.Forall₂ R) (as.mapM f) (as.mapM g) := by
  induction as with
  | nil => exact .ok .nil
  | cons a as ih =>
    rw [List.mapM_cons, List.mapM_cons]
    exact (h a).bind fun _ _ hfirst => ih.bind fun _ _ hrest => .ok (.cons hfirst hrest)

end

end Result
end ClassHeader
