import ClassHeader.Proofs.ClassFile.Parts
import ClassHeader.Proofs.ClassFile.RoundTrip
import ClassHeader.Proofs.Result

/-!
# Class files that are cut or continued

A step that runs on data and on the same data with more behind it sees no
difference before the shorter data ends. Decoding the shorter data then fails for
want of bytes, or, if all bytes were enough, decoding the longer data fails for
those that are left: no class file is the front of another one.
-/

namespace ClassHeader.ClassFile

open Binary Read

variable {α β : Type} {extra : Bytes}

/-- The data is refused as malformed, not as another format, version or constant. -/
def Malformed (e : Error) : Prop := e.Reports .decode .invalidData

theorem malformed_invalid (detail : Bytes) : Malformed (invalid detail) := ⟨_, rfl, rfl, rfl⟩

-- ---------------------------------------------------------------------------
-- One step on data and on its continuation
-- ---------------------------------------------------------------------------

inductive Continued (extra : Bytes) :
    EStateM.Result Error Reader α → EStateM.Result Error Reader α → Prop
  | ok (a : α) (rest : Bytes) (place : Nat) :
    Continued extra (.ok a ⟨.memory, rest, place⟩) (.ok a ⟨.memory, rest ++ extra, place⟩)
  | cut {e : Error} {r : Reader} {longer : EStateM.Result Error Reader α} (h : Malformed e) :
    Continued extra (.error e r) longer
  | excess {shorter : EStateM.Result Error Reader α} {e : Error} {r : Reader} (h : Malformed e) :
    Continued extra shorter (.error e r)
  | failed {e e' : Error} {r r' : Reader} : Continued extra (.error e r) (.error e' r')

/-- Wherever the step starts, `extra` behind its data changes nothing before that data ends. -/
def Continues (extra : Bytes) (step : Read α) : Prop :=
  ∀ rest place,
    Continued extra (step ⟨.memory, rest, place⟩) (step ⟨.memory, rest ++ extra, place⟩)

theorem Continues.bind {step : Read α} {next : α → Read β} (hstep : Continues extra step)
    (hnext : ∀ a, Continues extra (next a)) : Continues extra (step >>= next) := by
  intro rest place
  have h := hstep rest place
  simp only [Bind.bind, EStateM.bind]
  generalize step ⟨.memory, rest, place⟩ = shorter at h
  generalize step ⟨.memory, rest ++ extra, place⟩ = longer at h
  cases h with
  | ok a rest place => exact hnext a rest place
  | cut h => exact .cut h
  | excess h => exact .excess h
  | failed => exact .failed

theorem readPart_continues (part : Bytes) (width : Nat) (value : Bytes → α) :
    Continues extra (readPart part (do return value (← Read.take width))) := by
  intro rest place
  by_cases hlen : width ≤ rest.length
  · have hshort : (rest.take width).length = width := by simpa using hlen
    have htake : (rest ++ extra).take width = rest.take width := List.take_append_of_le_length hlen
    have hdrop : (rest ++ extra).drop width = rest.drop width ++ extra :=
      List.drop_append_of_le_length hlen
    simp only [readPart, mapError, Bind.bind, EStateM.bind, Read.take, htake, hdrop, hshort,
      if_pos]
    exact .ok _ _ _
  · have hshort : (rest.take width).length ≠ width := by
      rw [List.length_take]
      omega
    simp only [readPart, mapError, Bind.bind, EStateM.bind, Read.take, if_neg hshort]
    exact .cut ⟨_, rfl, rfl, rfl⟩

theorem readEnd_continues (hextra : extra ≠ []) : Continues extra readEnd := by
  intro rest place
  cases rest with
  | nil =>
    obtain ⟨b, behind, rfl⟩ := List.exists_cons_of_ne_nil hextra
    exact .excess (malformed_invalid _)
  | cons b rest => exact .failed

theorem Composed.continues {step : Read α} (h : Composed step) (hextra : extra ≠ []) :
    Continues extra step := by
  induction h with
  | pure a => exact fun rest place => .ok a rest place
  | fault fault => exact fun _ _ => .failed
  | position => exact fun rest place => .ok place rest place
  | part part width value => exact readPart_continues part width value
  | done => exact readEnd_continues hextra
  | bind _ _ hstep hnext => exact .bind hstep hnext

-- ---------------------------------------------------------------------------
-- Whole files
-- ---------------------------------------------------------------------------

/-- Of data and its continuation at most one is a class file, and the other one is malformed. -/
theorem decode_continued (data : Bytes) (hextra : extra ≠ []) :
    (∃ e, decode data = .error e ∧ Malformed e) ∨
      (∃ e, decode (data ++ extra) = .error e ∧ Malformed e) ∨
      ∃ e e', decode data = .error e ∧ decode (data ++ extra) = .error e' := by
  have h := read_composed.continues hextra data 0
  simp only [decode, decodeFrom, runOn]
  generalize hshorter : read ⟨.memory, data, 0⟩ = shorter at h
  generalize hlonger : read ⟨.memory, data ++ extra, 0⟩ = longer at h
  cases h with
  | ok c rest place =>
    -- A file that was read leaves nothing, so there is nothing behind the longer data either.
    obtain ⟨-, -, hend⟩ := read_ok_iff.mp hlonger
    exact absurd (List.append_eq_nil_iff.mp hend).2 hextra
  | cut h => exact .inl ⟨_, rfl, h⟩
  | excess h => exact .inr (.inl ⟨_, rfl, h⟩)
  | failed => exact .inr (.inr ⟨_, _, rfl, rfl⟩)

/-- Every proper front of a class file and every continuation of it is refused as malformed. -/
theorem decode_prefix_free {data : Bytes} {c : ClassFile} (h : decode data = .ok c) :
    (∀ front, front <+: data → front ≠ data → ∃ e, decode front = .error e ∧ Malformed e) ∧
      ∀ extra, extra ≠ [] → ∃ e, decode (data ++ extra) = .error e ∧ Malformed e := by
  constructor
  · rintro front ⟨extra, rfl⟩ hne
    have hextra : extra ≠ [] := by
      rintro rfl
      exact hne (List.append_nil front).symm
    rcases decode_continued front hextra with hfront | ⟨e, he, -⟩ | ⟨-, e, -, he⟩
    · exact hfront
    · rw [h] at he
      cases he
    · rw [h] at he
      cases he
  · intro extra hextra
    rcases decode_continued data hextra with ⟨e, he, -⟩ | hlonger | ⟨e, -, he, -⟩
    · rw [h] at he
      cases he
    · exact hlonger
    · rw [h] at he
      cases he

theorem decode_prefix_free_specimen :
    decode specimenData = .ok specimen ∧
      (∃ e, decode (specimenData.take 31) = .error e ∧ Malformed e) ∧
      ∃ e, decode (specimenData ++ [0]) = .error e ∧ Malformed e := by
  have h : decode specimenData = .ok specimen := by cbv
  obtain ⟨hfront, hlonger⟩ := decode_prefix_free h
  exact ⟨h, hfront _ (List.take_prefix _ _) (by decide), hlonger [0] (by decide)⟩

end ClassHeader.ClassFile
