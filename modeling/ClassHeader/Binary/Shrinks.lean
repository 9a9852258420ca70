import ClassHeader.Binary.Reader

/-!
# Reading never gives bytes back

A step shrinks the rest of the data, or leaves it as it is, whenever it
succeeds. Nested structures that are read from a payload are therefore smaller
than the payload.
-/

namespace ClassHeader.Binary.Read

variable {α β : Type}

/-- A successful step leaves no more bytes than it found. -/
def Shrinks (step : Read α) : Prop :=
  ∀ r a r', step r = .ok a r' → r'.rest.length ≤ r.rest.length

theorem bind_ok {step : Read α} {next : α → Read β} {r r' : Reader} {b : β}
    (h : (step >>= next) r = .ok b r') :
    ∃ a mid, step r = .ok a mid ∧ next a mid = .ok b r' := by
  simp only [Bind.bind, EStateM.bind] at h
  split at h
  · rename_i a mid heq
    exact ⟨a, mid, heq, h⟩
  · cases h

theorem mapError_ok {change : Nat → Error → Error} {step : Read α} {r r' : Reader} {a : α}
    (h : mapError change step r = .ok a r') : step r = .ok a r' := by
  simp only [mapError] at h
  split at h
  · rename_i heq
    cases h
    exact heq
  · cases h

theorem Shrinks.pure (a : α) : Shrinks (Pure.pure a : Read α) := by
  intro r b r' h
  cases h
  exact Nat.le_refl _

theorem Shrinks.throw (e : Error) : Shrinks (MonadExcept.throw e : Read α) := by
  intro r b r' h
  cases h

theorem Shrinks.get : Shrinks (MonadState.get : Read Reader) := by
  intro r b r' h
  cases h
  exact Nat.le_refl _

theorem Shrinks.bind {step : Read α} {next : α → Read β} (hs : Shrinks step)
    (hn : ∀ a, Shrinks (next a)) : Shrinks (step >>= next) := by
  intro r b r' h
  obtain ⟨a, mid, hstep, hnext⟩ := bind_ok h
  exact Nat.le_trans (hn a mid b r' hnext) (hs r a mid hstep)

theorem Shrinks.ite {c : Prop} [Decidable c] {first second : Read α} (h : Shrinks first)
    (h' : Shrinks second) : Shrinks (if c then first else second) := by
  split <;> assumption

theorem Shrinks.ensure {c : Prop} [Decidable c] {e : Error} :
    Shrinks (ClassHeader.ensure c e : Read Unit) := by
  unfold ClassHeader.ensure
  exact .ite (.pure _) (.throw _)

theorem Shrinks.ofExcept (result : Result α) :
    Shrinks (MonadExcept.ofExcept result : Read α) := by
  cases result with
  | ok a => exact .pure a
  | error e => exact .throw e

theorem Shrinks.take (n : Nat) : Shrinks (take n) := by
  intro r a r' h
  simp only [Read.take] at h
  split at h
  · cases h
    simp
  · cases h

theorem Shrinks.mapError {change : Nat → Error → Error} {step : Read α} (hs : Shrinks step) :
    Shrinks (mapError change step) :=
  fun r a r' h => hs r a r' (mapError_ok h)

theorem Shrinks.times {step : Read α} (hs : Shrinks step) (n : Nat) : Shrinks (times step n) := by
  induction n with
  | zero => exact .pure _
  | succ n ih => exact .bind hs fun _ => .bind ih fun _ => .pure _

theorem Shrinks.u1 : Shrinks u1 := .bind (.take 1) fun _ => .pure _
theorem Shrinks.u2 : Shrinks u2 := .bind (.take 2) fun _ => .pure _
theorem Shrinks.u4 : Shrinks u4 := .bind (.take 4) fun _ => .pure _
theorem Shrinks.s2 : Shrinks s2 := .bind .u2 fun _ => .pure _
theorem Shrinks.s4 : Shrinks s4 := .bind .u4 fun _ => .pure _
theorem Shrinks.position : Shrinks position := .bind .get fun _ => .pure _

theorem take_length {n : Nat} {r r' : Reader} {got : Bytes} (h : take n r = .ok got r') :
    got.length = n ∧ r'.rest.length + n = r.rest.length := by
  simp only [take] at h
  split at h
  · rename_i hlen
    cases h
    refine ⟨hlen, ?_⟩
    simp only [List.length_take] at hlen
    simp only [List.length_drop]
    omega
  · cases h

end ClassHeader.Binary.Read
