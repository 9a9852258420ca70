import ClassHeader.Proofs.Binary.Failure
import ClassHeader.Proofs.Bytecode.RoundTrip

/-!
# Code inside of longer data

`decodeFrom_confined`: reading code of some length from a place in longer data gives what
decoding that slice of the data gives, and stops where the slice ends. The reader could go on
behind the slice; whatever instruction would need that is refused, and switches are aligned
from the front of the slice. All refusals are faults of reading code: the data is invalid, or
an opcode is not supported.
-/

namespace ClassHeader.Bytecode

open Binary Binary.Reader

-- ---------------------------------------------------------------------------
-- Refusals
-- ---------------------------------------------------------------------------

/-- The outermost fault says that code is invalid or not supported, and names no class. -/
def Refused (e : Error) : Prop :=
  ∃ f, e.fault? = some f ∧ f.phase = .bytecode ∧
    (f.kind = .invalidData ∨ f.kind = .unsupported) ∧ f.className = []

theorem refused_invalid (detail : Bytes) : Refused (invalid detail) :=
  ⟨_, rfl, rfl, .inl rfl, rfl⟩

theorem refused_unsupported (detail : Bytes) : Refused (.unsupported .bytecode detail) :=
  ⟨_, rfl, rfl, .inr rfl, rfl⟩

theorem reading_onlyFails {α : Type} (pc : Nat) (step : Read α) :
    Read.OnlyFails Refused (reading pc step) :=
  .mapError (fun _ _ => ⟨_, rfl, rfl, .inl rfl, rfl⟩) step

theorem fixedOperand_onlyFails {op : Opcode} {data : Bytes} (h : op.width? = some data.length) :
    Result.OnlyFails Refused (fixedOperand op data) := by
  rw [Opcode.width?] at h
  cases hform : op.form with
  | tableSwitch | lookupSwitch | wide | unsupported => simp [hform, Form.width?] at h
  | plain =>
    obtain rfl : data = [] :=
      List.length_eq_zero_iff.mp (by simpa [hform, Form.width?] using h.symm)
    simp only [fixedOperand, hform]
    exact .pure _
  | byte | shortPool | slot =>
    obtain ⟨a, rfl⟩ := List.length_eq_one_iff.mp (by simpa [hform, Form.width?] using h.symm)
    simp only [fixedOperand, hform]
    exact .pure _
  | elementType =>
    obtain ⟨a, rfl⟩ := List.length_eq_one_iff.mp (by simpa [hform, Form.width?] using h.symm)
    simp only [fixedOperand, hform]
    exact .ite (.pure _) (.throw (refused_invalid _))
  | short | pool | increment | branch =>
    obtain ⟨a, b, rfl⟩ := List.length_eq_two.mp (by simpa [hform, Form.width?] using h.symm)
    simp only [fixedOperand, hform]
    exact .pure _
  | multiArray =>
    obtain ⟨a, b, c, rfl⟩ := List.length_eq_three.mp (by simpa [hform, Form.width?] using h.symm)
    simp only [fixedOperand, hform]
    exact .ite (.throw (refused_invalid _)) (.pure _)
  | farBranch =>
    obtain ⟨a, b, c, d, rfl⟩ := List.length_eq_four.mp (by simpa [hform, Form.width?] using h.symm)
    simp only [fixedOperand, hform]
    exact .pure _
  | invokeInterface | invokeDynamic =>
    obtain ⟨a, b, c, d, rfl⟩ := List.length_eq_four.mp (by simpa [hform, Form.width?] using h.symm)
    simp only [fixedOperand, hform]
    exact .ite (.throw (refused_invalid _)) (.pure _)

theorem checkTable_onlyFails (op : Opcode) (pc stop : Nat) (size : Int) :
    Read.OnlyFails Refused (checkTable op pc stop size) :=
  .bind .position fun _ => .ensure (refused_invalid _)

theorem lookupPairs_onlyFails (op : Opcode) (pc : Nat) (previous : Option Int32) (n : Nat) :
    Read.OnlyFails Refused (lookupPairs op pc previous n) := by
  induction n generalizing previous with
  | zero => exact .pure []
  | succ n ih =>
    exact .bind (reading_onlyFails pc _) fun _ => .bind (reading_onlyFails pc _) fun _ =>
      .bind (.ensure (refused_invalid _)) fun _ => .bind (ih _) fun _ => .pure _

theorem variableOperand_onlyFails (op : Opcode) (pc stop : Nat) :
    Read.OnlyFails Refused (variableOperand op pc stop) := by
  have hread : ∀ {α : Type} (step : Read α), Read.OnlyFails Refused (reading pc step) :=
    fun step => reading_onlyFails pc step
  unfold variableOperand
  split
  · refine .bind (hread _) fun _ => .bind (hread _) fun fallback => ?_
    refine .bind (hread _) fun low => .bind (hread _) fun high => ?_
    exact .bind (.ensure (refused_invalid _)) fun _ =>
      .bind (checkTable_onlyFails _ _ _ _) fun _ => .bind (.times (hread _) _) fun _ => .pure _
  · refine .bind (hread _) fun _ => .bind (hread _) fun fallback => .bind (hread _) fun count => ?_
    exact .bind (.ensure (refused_invalid _)) fun _ =>
      .bind (checkTable_onlyFails _ _ _ _) fun _ =>
        .bind (lookupPairs_onlyFails _ _ _ _) fun _ => .pure _
  · refine .bind (hread _) fun inner => .bind (.ensure (refused_invalid _)) fun _ => ?_
    exact .bind (hread _) fun _ => .bind (.ite (hread _) (.pure _)) fun _ => .pure _
  · exact .throw (refused_unsupported _)

theorem operandOf_onlyFails (op : Opcode) (pc stop : Nat) :
    Read.OnlyFails Refused (operandOf op pc stop) := by
  unfold operandOf
  split
  · exact variableOperand_onlyFails op pc stop
  · rename_i width hwidth
    refine .bind_of_ok (reading_onlyFails pc _) fun r data mid htake => .ofExcept ?_
    obtain ⟨rfl, -⟩ := Read.take_ok_iff.mp (reading_ok_iff.mp htake)
    exact fixedOperand_onlyFails hwidth

theorem instruction_onlyFails (start length : Nat) :
    Read.OnlyFails Refused (instruction start length) :=
  .bind .position fun _ => .bind (reading_onlyFails _ _) fun _ =>
    .bind (.ensure (refused_unsupported _)) fun _ =>
      .bind (operandOf_onlyFails _ _ _) fun _ => .bind .position fun _ =>
        .bind (.ensure (refused_invalid _)) fun _ => .pure _

theorem instructions_onlyFails (start length fuel : Nat) :
    Read.OnlyFails Refused (instructions start length fuel) := by
  induction fuel with
  | zero => exact .pure []
  | succ fuel ih =>
    refine .bind .position fun place => .ite ?_ (.pure [])
    exact .bind (instruction_onlyFails start length) fun _ => .bind ih fun _ => .pure _

theorem decodeFrom_onlyFails (length : Nat) : Read.OnlyFails Refused (decodeFrom length) :=
  .bind .position fun start => instructions_onlyFails start length length

-- ---------------------------------------------------------------------------
-- Slices
-- ---------------------------------------------------------------------------

section

variable {source : Source} {data : Bytes} {skip length : Nat} {is : List Instruction} {r' : Reader}

theorem passes_slice_iff {got : Bytes} (hskip : skip ≤ data.length) :
    got.length = length ∧
      Reader.Passes { source, rest := data.drop skip, position := skip } got r' ↔
    skip + length ≤ data.length ∧ got = (data.drop skip).take length ∧
      r' = { source, rest := data.drop (skip + length), position := skip + length } := by
  constructor
  · rintro ⟨rfl, hrest, hposition, hsource⟩
    obtain ⟨_, rest, position⟩ := r'
    cases hsource
    cases hposition
    have hrest : data.drop skip = got ++ rest := hrest
    have hlen : data.length - skip = got.length + rest.length := by
      rw [← List.length_drop, hrest, List.length_append]
    have hbehind : data.drop (skip + got.length) = rest := by
      rw [← List.drop_drop, hrest, List.drop_left]
    exact ⟨by omega, by rw [hrest, List.take_left], by rw [hbehind]; rfl⟩
  · rintro ⟨hend, rfl, rfl⟩
    have hlen : ((data.drop skip).take length).length = length := by
      rw [List.length_take, List.length_drop]
      omega
    refine ⟨hlen, ?_, by rw [hlen], rfl⟩
    rw [← List.drop_drop, List.take_append_drop]

/-- Code is read from a slice of the data exactly if the slice is there and is decoded, with the
same instructions, and reading ends where the slice does. -/
theorem decodeFrom_slice_iff (hskip : skip ≤ data.length) :
    decodeFrom length { source, rest := data.drop skip, position := skip } = .ok is r' ↔
      skip + length ≤ data.length ∧ decode ((data.drop skip).take length) = .ok is ∧
        r' = { source, rest := data.drop (skip + length), position := skip + length } := by
  rw [decodeFrom_ok_iff, decode_ok_iff]
  constructor
  · rintro ⟨got, hlen, hspelled, hpass⟩
    obtain ⟨hend, rfl, rfl⟩ := (passes_slice_iff hskip).mp ⟨hlen, hpass⟩
    exact ⟨hend, hspelled, rfl⟩
  · rintro ⟨hend, hspelled, rfl⟩
    obtain ⟨hlen, hpass⟩ := (passes_slice_iff hskip).mpr ⟨hend, rfl, rfl⟩
    exact ⟨_, hlen, hspelled, hpass⟩

theorem Refused.reports {e : Error} (h : Refused e) :
    e.Reports .bytecode .invalidData ∨ e.Reports .bytecode .unsupported := by
  obtain ⟨f, hfault, hphase, hkind | hkind, -⟩ := h
  · exact .inl ⟨f, hfault, hphase, hkind⟩
  · exact .inr ⟨f, hfault, hphase, hkind⟩

end

/-- Reading `length` bytes of code at `skip` is decoding that slice of the data, with the reader
left at its end. Failures of both are faults of reading code. -/
theorem decodeFrom_confined (source : Source) {data : Bytes} {skip : Nat}
    (hskip : skip ≤ data.length) (length : Nat) :
    (∀ is r', decodeFrom length { source, rest := data.drop skip, position := skip } = .ok is r' ↔
      skip + length ≤ data.length ∧ decode ((data.drop skip).take length) = .ok is ∧
        r' = { source, rest := data.drop (skip + length), position := skip + length }) ∧
    (∀ e r', decodeFrom length { source, rest := data.drop skip, position := skip } = .error e r' →
      e.Reports .bytecode .invalidData ∨ e.Reports .bytecode .unsupported) ∧
    ∀ code e, decode code = .error e →
      e.Reports .bytecode .invalidData ∨ e.Reports .bytecode .unsupported := by
  refine ⟨fun is r' => decodeFrom_slice_iff hskip, fun e r' he => ?_, fun code e he => ?_⟩
  · exact (decodeFrom_onlyFails length _ _ _ he).reports
  · exact ((decodeFrom_onlyFails code.length).runOn code .memory e he).reports

/-- The switch of `switchCode` is padded as if its code stood at the front. With two bytes less of
code its table is refused, although the data goes on. -/
theorem decodeFrom_confined_switch :
    3 ≤ ([7, 7, 7] ++ switchCode ++ [0xb1]).length ∧
      decodeFrom 25 { rest := switchCode ++ [0xb1], position := 3 } =
        .ok switchInstructions { rest := [0xb1], position := 28 } ∧
      ∃ e r', decodeFrom 23 { rest := switchCode ++ [0xb1], position := 3 } = .error e r' ∧
        (e.Reports .bytecode .invalidData ∨ e.Reports .bytecode .unsupported) := by
  have hskip : 3 ≤ ([7, 7, 7] ++ switchCode ++ [0xb1]).length := by decide
  obtain ⟨hread, -, -⟩ := decodeFrom_confined .memory hskip 25
  obtain ⟨-, hfail, -⟩ := decodeFrom_confined .memory hskip 23
  obtain ⟨e, r', he⟩ :
      ∃ e r', decodeFrom 23 { rest := switchCode ++ [0xb1], position := 3 } = .error e r' :=
    ⟨_, _, rfl⟩
  exact ⟨hskip, (hread _ _).mpr ⟨by decide, by rfl, by rfl⟩, e, r', he, hfail e r' he⟩

end ClassHeader.Bytecode
