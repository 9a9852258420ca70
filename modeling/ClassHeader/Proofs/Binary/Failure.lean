import ClassHeader.Binary.Reader
import ClassHeader.Proofs.Result

/-!
# Steps that fail

Which errors a reading step can fail with, wherever it starts: one law for each way of
composing steps, as for results.
-/

namespace ClassHeader.Binary.Read

variable {α β : Type} {P : Error → Prop}

/-- Wherever the step starts, `P` holds of the error it fails with. -/
def OnlyFails (P : Error → Prop) (step : Read α) : Prop := ∀ r e r', step r = .error e r' → P e

theorem OnlyFails.pure (a : α) : OnlyFails P (pure a : Read α) := by
  rintro r e r' ⟨⟩

theorem OnlyFails.throw {e : Error} (h : P e) : OnlyFails P (throw e : Read α) := by
  rintro r _ r' ⟨⟩
  exact h

theorem OnlyFails.position : OnlyFails P position := by
  rintro r e r' ⟨⟩

theorem OnlyFails.bind_of_ok {step : Read α} {next : α → Read β} (hstep : OnlyFails P step)
    (hnext : ∀ r a mid, step r = .ok a mid → OnlyFails P (next a)) :
    OnlyFails P (step >>= next) := by
  intro r e r' h
  simp only [Bind.bind, EStateM.bind] at h
  split at h
  · rename_i hok
    exact hnext _ _ _ hok _ _ _ h
  · rename_i hfails
    cases h
    exact hstep _ _ _ hfails

theorem OnlyFails.bind {step : Read α} {next : α → Read β} (hstep : OnlyFails P step)
    (hnext : ∀ a, OnlyFails P (next a)) : OnlyFails P (step >>= next) :=
  hstep.bind_of_ok fun _ a _ _ => hnext a

theorem OnlyFails.mono {Q : Error → Prop} {step : Read α} (hstep : OnlyFails P step)
    (h : ∀ e, P e → Q e) : OnlyFails Q step :=
  fun r e r' he => h e (hstep r e r' he)

theorem OnlyFails.ite {c : Prop} [Decidable c] {step step' : Read α} (h : OnlyFails P step)
    (h' : OnlyFails P step') : OnlyFails P (if c then step else step') := by
  split
  · exact h
  · exact h'

theorem OnlyFails.ensure {c : Prop} [Decidable c] {e : Error} (h : P e) :
    OnlyFails P (ClassHeader.ensure c e : Read Unit) :=
  .ite (.pure ()) (.throw h)

theorem OnlyFails.ofExcept {result : Result α} (h : Result.OnlyFails P result) :
    OnlyFails P (MonadExcept.ofExcept result : Read α) := by
  cases result with
  | ok a => exact .pure a
  | error e => exact .throw (h e rfl)

theorem OnlyFails.mapError {change : Nat → Error → Error} (h : ∀ place e, P (change place e))
    (step : Read α) : OnlyFails P (mapError change step) := by
  intro r e r' hfails
  simp only [Read.mapError] at hfails
  split at hfails
  · cases hfails
  · cases hfails
    exact h _ _

theorem OnlyFails.times {step : Read α} (h : OnlyFails P step) (n : Nat) :
    OnlyFails P (times step n) := by
  induction n with
  | zero => exact .pure []
  | succ n ih => exact .bind h fun _ => .bind ih fun _ => .pure _

theorem OnlyFails.runOn {step : Read α} (h : OnlyFails P step) (data : Bytes) (source : Source) :
    Result.OnlyFails P (runOn step data source) := by
  intro e he
  simp only [Read.runOn] at he
  split at he
  · cases he
  · rename_i hfails
    cases he
    exact h _ _ _ hfails

end ClassHeader.Binary.Read
