import ClassHeader.Proofs.Bytecode.RoundTrip

/-!
# What writing accepts

Writing compares the number of bytes of an operand with the number that its opcode asks
for, and an opcode whose operand has no fixed size asks for nothing. So it accepts operands
of a wrong kind and of the right size, and values that it has to shorten. The instructions
that it accepts and that fit are those that are read back.
-/

namespace ClassHeader.Bytecode

open Binary

/-- The number of bytes of an operand behind an opcode; none for a table, whose size depends on
its place and contents. -/
def Operand.size? (op : Opcode) : Operand → Option Nat
  | .empty | .number _ => some 0
  | .byte _ | .slot _ | .newArray _ => some 1
  | .pool _ => some (if op.form = .shortPool then 1 else 2)
  | .short _ | .increment _ _ => some 2
  | .multiArray _ _ => some 3
  | .branch _ => some (if op.form = .farBranch then 4 else 2)
  | .invokeInterface _ _ | .invokeDynamic _ => some 4
  | .wide inner _ _ => some (if inner = Opcode.iinc then 5 else 3)
  | .tableSwitch _ _ _ _ | .lookupSwitch _ _ => none

/-- The operands that are written behind an opcode. Neither their kinds nor their values count
otherwise. -/
structure Operand.Accepted (op : Opcode) (operand : Operand) : Prop where
  supported : op.isSupported = true
  isOperand : ∀ value, operand ≠ .number value
  present : operand = .empty → op.form = .plain
  sized : ∀ width, op.width? = some width → operand.size? op = some width

section

variable {op : Opcode} {operand : Operand} {pc : Nat} {data : Bytes}

-- ---------------------------------------------------------------------------
-- One instruction
-- ---------------------------------------------------------------------------

theorem width?_eq_zero_iff : op.width? = some 0 ↔ op.form = .plain := by
  rw [Opcode.width?]
  cases op.form <;> simp [Form.width?]

/-- No opcode asks for as many bytes as the smallest table has. -/
theorem width?_lt {width : Nat} (h : op.width? = some width) : width < 5 := by
  rw [Opcode.width?] at h
  cases hform : op.form <;> simp [hform, Form.width?] at h <;> omega

theorem exists_encode?_iff : (∃ data, operand.encode? op pc = some data) ↔
    (∀ value, operand ≠ .number value) ∧ (operand = .empty → op.form = .plain) := by
  cases operand with
  | empty => simp [Operand.encode?, width?_eq_zero_iff]
  | _ => simp [Operand.encode?]

theorem length_encode? (h : operand.encode? op pc = some data) :
    operand.size? op = some data.length ∨ operand.size? op = none ∧ 8 ≤ data.length := by
  cases operand with
  | number => cases h
  | empty => simp_all [Operand.encode?, Operand.size?]
  | tableSwitch | lookupSwitch =>
    cases h
    right
    simp [Operand.size?]
    omega
  | wide inner index amount =>
    cases h
    left
    by_cases hinner : inner = Opcode.iinc <;> simp [Operand.size?, hinner]
  | pool index =>
    cases h
    left
    by_cases hform : op.form = .shortPool <;> simp [Operand.size?, hform]
  | branch distance =>
    cases h
    left
    by_cases hform : op.form = .farBranch <;> simp [Operand.size?, hform]
  | _ =>
    cases h
    simp [Operand.size?]

theorem length_encode?_eq_iff (h : operand.encode? op pc = some data) {width : Nat}
    (hwidth : op.width? = some width) : data.length = width ↔ operand.size? op = some width := by
  rcases length_encode? h with hsize | ⟨hsize, hlength⟩
  · simp [hsize]
  · have := width?_lt hwidth
    simp [hsize]
    omega

theorem Instruction.encode_ok_iff {i : Instruction} {written : Bytes} :
    i.encode pc = .ok written ↔ i.opcode.isSupported = true ∧
      ∃ data, i.operand.encode? i.opcode pc = some data ∧
        (∀ width, i.opcode.width? = some width → data.length = width) ∧
        i.opcode.code :: data = written := by
  cases hsupported : i.opcode.isSupported with
  | false => simp [Instruction.encode, hsupported, throw, throwThe, MonadExceptOf.throw]
  | true =>
    cases hdata : i.operand.encode? i.opcode pc with
    | none => simp [Instruction.encode, hsupported, hdata, throw, throwThe, MonadExceptOf.throw]
    | some data =>
      cases hwidth : i.opcode.width? with
      | none => simp [Instruction.encode, hsupported, hdata, hwidth, pure, Except.pure]
      | some width =>
        by_cases hlength : data.length = width <;>
          simp [Instruction.encode, hsupported, hdata, hwidth, hlength, pure, Except.pure, throw,
            throwThe, MonadExceptOf.throw]

theorem Instruction.exists_encode_iff {i : Instruction} :
    (∃ written, i.encode pc = .ok written) ↔ i.operand.Accepted i.opcode := by
  simp only [Instruction.encode_ok_iff]
  constructor
  · rintro ⟨_, hsupported, data, hdata, hwidth, -⟩
    obtain ⟨hoperand, hpresent⟩ := exists_encode?_iff.mp ⟨data, hdata⟩
    exact ⟨hsupported, hoperand, hpresent, fun width h =>
      (length_encode?_eq_iff hdata h).mp (hwidth width h)⟩
  · intro h
    obtain ⟨data, hdata⟩ := exists_encode?_iff.mpr ⟨h.isOperand, h.present⟩
    exact ⟨_, h.supported, data, hdata, fun width hwidth =>
      (length_encode?_eq_iff hdata hwidth).mpr (h.sized width hwidth), rfl⟩

end

-- ---------------------------------------------------------------------------
-- Instructions one behind the other
-- ---------------------------------------------------------------------------

section

variable {pc : Nat} {is : List Instruction} {data : Bytes}

theorem exists_encodeFrom_iff :
    (∃ data, encodeFrom pc is = .ok data) ↔ ∀ i ∈ is, i.operand.Accepted i.opcode := by
  induction is generalizing pc with
  | nil => simp [encodeFrom, pure, Except.pure]
  | cons i is ih =>
    have hi : (∃ data, i.encode pc = .ok data) ↔ i.operand.Accepted i.opcode :=
      Instruction.exists_encode_iff
    rw [List.forall_mem_cons, ← hi]
    cases hfirst : i.encode pc with
    | error e => simp [encodeFrom, hfirst, bind, Except.bind]
    | ok first =>
      have hrest : (∃ data, encodeFrom (pc + first.length) is = .ok data) ↔
          ∀ i ∈ is, i.operand.Accepted i.opcode := ih
      rw [← hrest]
      cases hothers : encodeFrom (pc + first.length) is with
      | error e => simp [encodeFrom, hfirst, hothers, bind, Except.bind]
      | ok others => simp [encodeFrom_cons hfirst hothers]

theorem encodeFrom_error {e : Error} (h : encodeFrom pc is = .error e) :
    ∃ front i rest place, is = front ++ i :: rest ∧
      (∀ j ∈ front, j.operand.Accepted j.opcode) ∧ ¬ i.operand.Accepted i.opcode ∧
      i.encode place = .error e := by
  induction is generalizing pc with
  | nil => cases h
  | cons i is ih =>
    cases hfirst : i.encode pc with
    | error e' =>
      have he : e' = e := by simpa [encodeFrom, hfirst, bind, Except.bind] using h
      refine ⟨[], i, is, pc, rfl, by simp, fun haccepted => ?_, he ▸ hfirst⟩
      obtain ⟨_, hwritten⟩ := Instruction.exists_encode_iff.mpr haccepted
      cases hfirst.symm.trans hwritten
    | ok first =>
      have hothers : encodeFrom (pc + first.length) is = .error e := by
        cases hothers : encodeFrom (pc + first.length) is with
        | error e' => simpa [encodeFrom, hfirst, hothers, bind, Except.bind] using h
        | ok others => cases (encodeFrom_cons hfirst hothers).symm.trans h
      obtain ⟨front, j, rest, place, rfl, hfront, hrefused, herror⟩ := ih hothers
      exact ⟨i :: front, j, rest, place, rfl, List.forall_mem_cons.mpr
        ⟨Instruction.exists_encode_iff.mp ⟨_, hfirst⟩, hfront⟩, hrefused, herror⟩

theorem Spelled.fits (h : Spelled pc is data) : ∀ i ∈ is, i.operand.Fits i.opcode := by
  induction h with
  | nil => simp
  | cons hfirst _ ih => exact List.forall_mem_cons.mpr ⟨hfirst.fits, ih⟩

end

/-- Instructions are written if and only if all of them are accepted, and otherwise the first that
is not is refused. What is written is read back as the same opcodes and operands if and only if
all operands fit. -/
theorem encode_accepted_and_kept_iff (is : List Instruction) :
    ((∃ data, encode is = .ok data) ↔ ∀ i ∈ is, i.operand.Accepted i.opcode) ∧
    (∀ e, encode is = .error e → ∃ front i rest place, is = front ++ i :: rest ∧
      (∀ j ∈ front, j.operand.Accepted j.opcode) ∧ ¬ i.operand.Accepted i.opcode ∧
      i.encode place = .error e) ∧
    ∀ data, encode is = .ok data → data.length < 2 ^ 32 →
      ((∃ placed, decode data = .ok placed ∧
          placed.map (fun i => (i.opcode, i.operand)) = is.map fun i => (i.opcode, i.operand)) ↔
        ∀ i ∈ is, i.operand.Fits i.opcode) := by
  refine ⟨exists_encodeFrom_iff, fun _ => encodeFrom_error, fun data hdata hlength => ⟨?_, ?_⟩⟩
  · rintro ⟨placed, hplaced, hsame⟩ i hi
    have hpair : (i.opcode, i.operand) ∈ placed.map fun i => (i.opcode, i.operand) :=
      hsame ▸ List.mem_map_of_mem hi
    obtain ⟨j, hj, heq⟩ := List.mem_map.mp hpair
    obtain ⟨hopcode, hoperand⟩ := Prod.mk.inj heq
    exact hopcode ▸ hoperand ▸ (decode_ok_iff.mp hplaced).fits j hj
  · intro hfits
    obtain ⟨placed, hspelled, hsame⟩ := exists_spelled hfits hdata hlength
    exact ⟨placed, decode_ok_iff.mpr hspelled, hsame⟩

/-- An operand of a wrong kind, an index and a distance that are too large, keys in a wrong order
and a table that is too short. -/
def straying : List Instruction :=
  [{ opcode := ⟨0x10⟩, operand := .slot 5 }, { opcode := ⟨0x15⟩, operand := .slot 300 },
    { opcode := ⟨0xa7⟩, operand := .branch 65536 },
    { opcode := ⟨0xab⟩, operand := .lookupSwitch 0 [(2, 0), (1, 0)] },
    { opcode := ⟨0xaa⟩, operand := .tableSwitch 0 0 9 [] }]

theorem encode_accepts_straying :
    encode straying = .ok [0x10, 5, 0x15, 44, 0xa7, 0, 0,
      0xab, 0, 0, 0, 0, 0, 0, 0, 2, 0, 0, 0, 2, 0, 0, 0, 0, 0, 0, 0, 1, 0, 0, 0, 0,
      0xaa, 0, 0, 0, 0, 0, 0, 0, 0, 0, 0, 0, 0, 0, 0, 9] ∧
      ∀ i ∈ straying, ¬ i.operand.Fits i.opcode := by
  exact ⟨by decide +kernel, by decide +kernel⟩

theorem encode_accepted_and_kept_iff_straying :
    let few := straying.take 2
    let refused := few ++ [{ opcode := ⟨0x11⟩ }]
    let e := Error.typeMismatch .bytecode [text "sipush"] (text "immediate for sipush")
      (text "<nil>")
    encode few = .ok [0x10, 5, 0x15, 44] ∧ (∀ i ∈ few, i.operand.Accepted i.opcode) ∧
      (¬ ∃ placed, decode [0x10, 5, 0x15, 44] = .ok placed ∧
        placed.map (fun i => (i.opcode, i.operand)) = few.map fun i => (i.opcode, i.operand)) ∧
      encode refused = .error e ∧ ∃ front i rest place, refused = front ++ i :: rest ∧
        (∀ j ∈ front, j.operand.Accepted j.opcode) ∧ ¬ i.operand.Accepted i.opcode ∧
        i.encode place = .error e := by
  intro few refused e
  have hdata : encode few = .ok [0x10, 5, 0x15, 44] := by decide +kernel
  have herror : encode refused = .error e := by decide +kernel
  obtain ⟨haccepted, -, hkept⟩ := encode_accepted_and_kept_iff few
  refine ⟨hdata, haccepted.mp ⟨_, hdata⟩, fun hback => ?_, herror,
    (encode_accepted_and_kept_iff refused).2.1 e herror⟩
  exact absurd ((hkept _ hdata (by decide)).mp hback) (by decide +kernel)

end ClassHeader.Bytecode
