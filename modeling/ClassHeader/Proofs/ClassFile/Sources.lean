import ClassHeader.Proofs.ClassFile.Parts
import Mathlib

/-!
# Class files in memory and in streams

A read that asks for too much stops a reader of memory where it stands and a
reader of a stream at the end of its data. Up to that read both stand at the same
place, so decoding either gives the same class file or the same fault; only the
place that the cause of the fault quotes may differ.
-/

namespace ClassHeader

namespace Binary.Read

variable {α β : Type} {R : Error → Error → Prop}

inductive Matched (R : Error → Error → Prop) :
    EStateM.Result Error Reader α → EStateM.Result Error Reader α → Prop
  | ok (a : α) (rest : Bytes) (place : Nat) :
    Matched R (.ok a ⟨.memory, rest, place⟩) (.ok a ⟨.stream, rest, place⟩)
  | error {e e' : Error} {r r' : Reader} (h : R e e') : Matched R (.error e r) (.error e' r')

/-- Wherever the step starts, both sources serve it alike; when it fails, the errors are related
by `R`. -/
def Alike (R : Error → Error → Prop) (step : Read α) : Prop :=
  ∀ rest place, Matched R (step ⟨.memory, rest, place⟩) (step ⟨.stream, rest, place⟩)

theorem Alike.pure (a : α) : Alike R (pure a : Read α) := by
  intro rest place
  exact .ok a rest place

theorem Alike.throw {e : Error} (h : R e e) : Alike R (throw e : Read α) := by
  intro rest place
  exact .error h

theorem Alike.position : Alike R position := by
  intro rest place
  exact .ok place rest place

theorem Alike.bind {step : Read α} {next : α → Read β} (hstep : Alike R step)
    (hnext : ∀ a, Alike R (next a)) : Alike R (step >>= next) := by
  intro rest place
  have h := hstep rest place
  simp only [Bind.bind, EStateM.bind]
  generalize step ⟨.memory, rest, place⟩ = result at h
  generalize step ⟨.stream, rest, place⟩ = result' at h
  cases h with
  | ok a rest place => exact hnext a rest place
  | error h => exact .error h

/-- How far a read got may show in its error, so nothing is said about that error here. -/
abbrev Fails : Error → Error → Prop := fun _ _ => True

theorem Alike.take (n : Nat) : Alike Fails (take n) := by
  intro rest place
  simp only [Read.take]
  split_ifs
  · exact .ok _ _ _
  · exact .error trivial

end Binary.Read

namespace ClassFile

open Binary Read

/-- Both errors report the same fault: phase, kind, place and detail agree, but not what caused
it. -/
def SameFault (e e' : Error) : Prop := ∃ fault, e.fault? = some fault ∧ e'.fault? = some fault

theorem sameFault_fault (fault : Fault) : SameFault (.fault fault) (.fault fault) :=
  ⟨fault, rfl, rfl⟩

theorem readPart_alike {α : Type} (part : Bytes) {step : Read α} (h : Alike Fails step) :
    Alike SameFault (readPart part step) := by
  intro rest place
  have hstep := h rest place
  simp only [readPart, Read.mapError]
  generalize step ⟨.memory, rest, place⟩ = result at hstep
  generalize step ⟨.stream, rest, place⟩ = result' at hstep
  cases hstep with
  | ok a rest place => exact .ok a rest place
  | error _ => exact .error ⟨_, rfl, rfl⟩

theorem readEnd_alike : Alike SameFault readEnd := by
  intro rest place
  cases rest with
  | nil => exact .ok () [] place
  | cons b rest => exact .error (sameFault_fault _)

theorem Composed.alike {α : Type} {step : Read α} (h : Composed step) : Alike SameFault step := by
  induction h with
  | pure a => exact .pure a
  | fault fault => exact .throw (sameFault_fault fault)
  | position => exact .position
  | part part width value => exact readPart_alike part (.bind (.take width) fun _ => .pure _)
  | done => exact readEnd_alike
  | bind _ _ hstep hnext => exact .bind hstep hnext

theorem read_alike : Alike SameFault read := read_composed.alike

/-- Decoding the same bytes from memory and from a stream gives the same class file, or both fail
with the same fault. -/
theorem decode_memory_stream_agree (data : Bytes) :
    (∃ c, decode data = .ok c ∧ decodeFrom .stream data = .ok c) ∨
      ∃ e e' fault, decode data = .error e ∧ decodeFrom .stream data = .error e' ∧
        e.fault? = some fault ∧ e'.fault? = some fault := by
  have h := read_alike data 0
  simp only [decode, decodeFrom, runOn]
  generalize read ⟨.memory, data, 0⟩ = result at h
  generalize read ⟨.stream, data, 0⟩ = result' at h
  cases h with
  | ok c rest place => exact .inl ⟨c, rfl, rfl⟩
  | error h =>
    obtain ⟨fault, hmemory, hstream⟩ := h
    exact .inr ⟨_, _, fault, rfl, rfl, hmemory, hstream⟩

/-- The errors themselves may differ: of two bytes, a reader of memory consumes none for the magic
number, a reader of a stream both. -/
example : (decode [0xCA, 0xFE]).mapError (·.message) ≠
    (decodeFrom .stream [0xCA, 0xFE]).mapError (·.message) := by
  decide +kernel

end ClassFile
end ClassHeader
