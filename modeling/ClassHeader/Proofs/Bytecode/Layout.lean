import ClassHeader.Proofs.Bytecode.Operand

/-!
# The layout of code

`Operand.Spells` relates an operand to all bytes that stand for it: what is written
for it, with anything in the padding of a switch. Reading accepts exactly these
bytes, for one operand, for one instruction and for a whole run of instructions
(`decode_ok_iff`).
-/

namespace ClassHeader.Bytecode

open Binary Binary.Reader

-- ---------------------------------------------------------------------------
-- Operands of variable size
-- ---------------------------------------------------------------------------

def gap (op : Opcode) (pc : Nat) : Nat :=
  match op.form with
  | .tableSwitch | .lookupSwitch => padding pc
  | _ => 0

/-- The bytes stand for the operand: they are what is written for it, but may hold anything in
the gap. -/
def Operand.Spells (op : Opcode) (pc : Nat) (operand : Operand) (data : Bytes) : Prop :=
  ∃ pad body, pad.length = gap op pc ∧ data = pad ++ body ∧
    operand.encode? op pc = some (List.replicate (gap op pc) 0 ++ body)

/-- A lookup switch with a number of pairs that a signed word holds. -/
def Operand.Counted : Operand → Prop
  | .lookupSwitch _ pairs => pairs.length < 2 ^ 31
  | _ => True

theorem spells_iff_of_gap {op : Opcode} {pc : Nat} {operand : Operand} {data : Bytes}
    (h : gap op pc = 0) : operand.Spells op pc data ↔ operand.encode? op pc = some data := by
  simp only [Operand.Spells, h, List.length_eq_zero_iff, List.replicate_zero, List.nil_append]
  constructor
  · rintro ⟨_, body, rfl, rfl, hbody⟩
    exact hbody
  · intro hdata
    exact ⟨[], data, rfl, rfl, hdata⟩

section

variable {α : Type} {op : Opcode} {pc stop : Nat} {operand : Operand} {r r' : Reader}

@[simp] theorem reading_ok_iff {step : Read α} {a : α} :
    reading pc step r = .ok a r' ↔ step r = .ok a r' := Read.mapError_ok_iff

@[simp] theorem checkTable_ok_iff {size : Int} {u : Unit} :
    checkTable op pc stop size r = .ok u r' ↔ size ≤ stop - r.position ∧ r = r' := by
  simp only [checkTable, Read.bind_ok_iff, Read.position_ok_iff, Read.ensure_ok_iff]
  constructor
  · rintro ⟨_, _, ⟨rfl, rfl⟩, h⟩
    exact h
  · intro h
    exact ⟨_, _, ⟨rfl, rfl⟩, h⟩

@[simp] theorem length_s4 (v : Int32) : (s4 v).length = 4 := length_u4 _

theorem length_pair (pair : Int32 × Int32) : (s4 pair.1 ++ s4 pair.2).length = 8 := by
  simp

theorem s4_reads : Read.Reads (reading pc Read.s4) (fun _ => True) s4 := by
  intro r v r'
  simp [s4]

theorem lookupPairs_ok_iff {previous : Option Int32} {n : Nat} {pairs : List (Int32 × Int32)} :
    lookupPairs op pc previous n r = .ok pairs r' ↔
      pairs.length = n ∧ (pairs.map (·.1)).Pairwise (· < ·) ∧
        (∀ before ∈ previous, ∀ key ∈ pairs.map (·.1), before < key) ∧
        r.Passes (pairs.flatMap fun (key, distance) => s4 key ++ s4 distance) r' := by
  induction n generalizing previous pairs r with
  | zero => cases pairs <;> simp [lookupPairs]
  | succ n ih =>
    simp only [lookupPairs, Read.bind_ok_iff, reading_ok_iff, Read.s4_ok_iff, Read.ensure_ok_iff,
      Option.all_eq_true, decide_eq_true_eq, Read.pure_ok_iff]
    constructor
    · rintro ⟨key, first, hkey, distance, second, hdistance, _, _, ⟨hbefore, rfl⟩, others, last,
        hothers, rfl, rfl⟩
      obtain ⟨rfl, hsorted, hgreater, hpass⟩ := ih.mp hothers
      have hlater : ∀ next ∈ others.map (·.1), key < next := hgreater key rfl
      refine ⟨rfl, List.pairwise_cons.mpr ⟨hlater, hsorted⟩, ?_, (hkey.trans hdistance).trans hpass⟩
      intro before hmem next hnext
      rcases List.mem_cons.mp hnext with rfl | hnext
      · exact hbefore before hmem
      · exact Int32.lt_trans (hbefore before hmem) (hlater next hnext)
    · rintro ⟨hlen, hsorted, hgreater, hpass⟩
      cases pairs with
      | nil => cases hlen
      | cons pair others =>
        obtain ⟨key, distance⟩ := pair
        obtain ⟨hlater, hsorted⟩ := List.pairwise_cons.mp hsorted
        simp only [List.flatMap_cons, passes_append] at hpass
        obtain ⟨second, ⟨first, hkey, hdistance⟩, hpass⟩ := hpass
        refine ⟨key, first, hkey, distance, second, hdistance, (), second,
          ⟨fun before hmem => hgreater before hmem key (by simp), rfl⟩, others, r',
          ih.mpr ⟨by simpa using hlen, hsorted, ?_, hpass⟩, rfl, rfl⟩
        rintro _ ⟨⟩
        exact hlater

theorem tableSwitch_ok_iff (hform : op.form = .tableSwitch) (hstop : r'.position ≤ stop) :
    variableOperand op pc stop r = .ok operand r' ↔
      operand.Fits op ∧ ∃ data, operand.Spells op pc data ∧ r.Passes data r' := by
  have hgap : gap op pc = padding pc := by simp [gap, hform]
  simp only [variableOperand, hform, Read.bind_ok_iff, reading_ok_iff, Read.take_ok_iff,
    Read.s4_ok_iff, Read.ensure_ok_iff, checkTable_ok_iff, s4_reads.times _ _ _ _,
    Read.pure_ok_iff]
  constructor
  · rintro ⟨pad, r₁, ⟨hpad, hskip⟩, fallback, r₂, hfallback, low, r₃, hlow, high, r₄, hhigh, _, _,
      ⟨hle, rfl⟩, _, _, ⟨_, rfl⟩, distances, last, ⟨⟨hlen, _⟩, htable⟩, rfl, rfl⟩
    have hbounds : low.toInt ≤ high.toInt := Int32.le_iff_toInt_le.mp hle
    refine ⟨⟨hform, hle, by omega⟩, _, ⟨pad, _, hgap ▸ hpad, rfl, ?_⟩,
      hskip.trans (((hfallback.trans hlow).trans hhigh).trans htable)⟩
    simp [Operand.encode?, hgap, s4]
  · rintro ⟨hfits, data, ⟨pad, body, hpad, rfl, hencode⟩, hpass⟩
    cases operand with
    | tableSwitch fallback low high distances => ?_
    | _ => simp [Operand.Fits, hform] at hfits
    obtain ⟨_, hle, hlen⟩ := hfits
    have hbody : s4 fallback ++ s4 low ++ s4 high ++ distances.flatMap s4 = body := by
      simpa [Operand.encode?, hgap] using hencode
    subst hbody
    simp only [passes_append] at hpass
    obtain ⟨r₁, hskip, r₄, ⟨r₃, ⟨r₂, hfallback, hlow⟩, hhigh⟩, htable⟩ := hpass
    -- The table ends where reading ends, so it cannot reach beyond `stop`.
    have hroom : (high.toInt - low.toInt + 1) * 4 ≤ stop - r₄.position := by
      have hend := htable.position
      rw [length_flatMap length_s4] at hend
      omega
    exact ⟨pad, r₁, ⟨hpad.trans hgap, hskip⟩, fallback, r₂, hfallback, low, r₃, hlow, high, r₄,
      hhigh, (), r₄, ⟨hle, rfl⟩, (), r₄, ⟨hroom, rfl⟩, distances, r',
      ⟨⟨by omega, fun _ _ => trivial⟩, htable⟩, rfl, rfl⟩

theorem lookupSwitch_ok_iff (hform : op.form = .lookupSwitch) (hstop : r'.position ≤ stop) :
    variableOperand op pc stop r = .ok operand r' ↔
      operand.Fits op ∧ operand.Counted ∧
        ∃ data, operand.Spells op pc data ∧ r.Passes data r' := by
  have hgap : gap op pc = padding pc := by simp [gap, hform]
  simp only [variableOperand, hform, Read.bind_ok_iff, reading_ok_iff, Read.take_ok_iff,
    Read.s4_ok_iff, Read.ensure_ok_iff, checkTable_ok_iff, lookupPairs_ok_iff, Read.pure_ok_iff]
  constructor
  · rintro ⟨pad, r₁, ⟨hpad, hskip⟩, fallback, r₂, hfallback, count, r₃, hcount, _, _,
      ⟨hle, rfl⟩, _, _, ⟨_, rfl⟩, pairs, last, ⟨hlen, hsorted, _, hpairs⟩, rfl, rfl⟩
    have hpos : 0 ≤ count.toInt := Int32.le_iff_toInt_le.mp hle
    have hlt : count.toInt < 2 ^ 31 := count.toInt_lt
    have hwritten : UInt32.ofNat pairs.length = count.toUInt32 := by
      rw [hlen, ← Int32.toUInt32_ofNat']
      exact congrArg Int32.toUInt32 (Int32.ofNat_toNatClampNeg count hle)
    refine ⟨⟨hform, hsorted⟩, by simp only [Operand.Counted]; omega, _,
      ⟨pad, _, hgap ▸ hpad, rfl, ?_⟩, hskip.trans ((hfallback.trans hcount).trans hpairs)⟩
    simp [Operand.encode?, hgap, s4, hwritten]
  · rintro ⟨hfits, hcounted, data, ⟨pad, body, hpad, rfl, hencode⟩, hpass⟩
    cases operand with
    | lookupSwitch fallback pairs => ?_
    | _ => simp [Operand.Fits, hform] at hfits
    obtain ⟨_, hsorted⟩ := hfits
    have hbody : s4 fallback ++ u4 (UInt32.ofNat pairs.length) ++
        pairs.flatMap (fun (key, distance) => s4 key ++ s4 distance) = body := by
      simpa [Operand.encode?, hgap] using hencode
    subst hbody
    simp only [passes_append] at hpass
    obtain ⟨r₁, hskip, r₃, ⟨r₂, hfallback, hcount⟩, hpairs⟩ := hpass
    have hread : (Int32.ofNat pairs.length).toInt = pairs.length :=
      Int32.toInt_ofNat_of_lt hcounted
    have hroom : (pairs.length : Int) * 8 ≤ stop - r₃.position := by
      have hend := hpairs.position
      rw [length_flatMap length_pair] at hend
      omega
    refine ⟨pad, r₁, ⟨hpad.trans hgap, hskip⟩, fallback, r₂, hfallback, Int32.ofNat pairs.length,
      r₃, by simpa using hcount, (), r₃, ⟨Int32.zero_le_ofNat_of_lt hcounted, rfl⟩, (), r₃,
      ⟨by rwa [hread], rfl⟩, pairs, r', ⟨by simp [hread], hsorted, by simp, hpairs⟩, rfl, rfl⟩

@[simp] theorem wideAmount_ok_iff {inner : Opcode} {amount : Int16} :
    wideAmount inner pc r = .ok amount r' ↔ (inner ≠ Opcode.iinc → amount = 0) ∧
      r.Passes (if inner = Opcode.iinc then u2 amount.toUInt16 else []) r' := by
  by_cases h : inner = Opcode.iinc
  · simp [wideAmount, h]
  · simp [wideAmount, h, eq_comm]

theorem wide_ok_iff (hform : op.form = .wide) :
    variableOperand op pc stop r = .ok operand r' ↔
      operand.Fits op ∧ ∃ data, operand.encode? op pc = some data ∧ r.Passes data r' := by
  simp only [variableOperand, hform, Read.bind_ok_iff, reading_ok_iff, Read.u1_ok_iff,
    Read.ensure_ok_iff, Read.u2_ok_iff, wideAmount_ok_iff, Read.pure_ok_iff]
  constructor
  · rintro ⟨code, r₁, hcode, _, _, ⟨hinner, rfl⟩, index, r₂, hindex, amount, last,
      ⟨hzero, hamount⟩, rfl, rfl⟩
    exact ⟨⟨hform, hinner, hzero⟩, _, rfl, (hcode.trans hindex).trans hamount⟩
  · rintro ⟨hfits, data, hencode, hpass⟩
    cases operand with
    | wide inner index amount => ?_
    | _ => simp [Operand.Fits, hform] at hfits
    obtain ⟨_, hinner, hzero⟩ := hfits
    cases hencode
    simp only [passes_append] at hpass
    obtain ⟨r₂, ⟨r₁, hcode, hindex⟩, hamount⟩ := hpass
    exact ⟨inner.code, r₁, hcode, (), r₁, ⟨hinner, rfl⟩, index, r₂, hindex, amount, r',
      ⟨hzero, hamount⟩, rfl, rfl⟩

theorem fixed_ok_iff {width : Nat} (hwidth : op.width? = some width) :
    operandOf op pc stop r = .ok operand r' ↔
      operand.Fits op ∧ ∃ data, operand.encode? op pc = some data ∧ r.Passes data r' := by
  simp only [operandOf, hwidth, Read.bind_ok_iff, reading_ok_iff, Read.take_ok_iff,
    Read.ofExcept_ok_iff]
  constructor
  · rintro ⟨data, _, ⟨_, hpass⟩, hfixed, rfl⟩
    obtain ⟨hfits, hencode⟩ := fixedOperand_ok pc hfixed
    exact ⟨hfits, data, hencode, hpass⟩
  · rintro ⟨hfits, data, hencode, hpass⟩
    obtain ⟨_, hencode', hlen⟩ := encode?_of_fits hfits pc
    cases hencode.symm.trans hencode'
    exact ⟨data, r', ⟨hlen width hwidth, hpass⟩, fixedOperand_of_fits hwidth hfits hencode, rfl⟩

theorem counted_of_fits (hform : op.form ≠ .lookupSwitch) (h : operand.Fits op) :
    operand.Counted := by
  cases operand with
  | lookupSwitch => exact absurd h.1 hform
  | _ => trivial

/-- An operand is read from the bytes that stand for it, and from no others, as long as they end
before the code does. -/
theorem operandOf_ok_iff (hsupported : op.isSupported = true) (hstop : r'.position ≤ stop) :
    operandOf op pc stop r = .ok operand r' ↔
      operand.Fits op ∧ operand.Counted ∧
        ∃ data, operand.Spells op pc data ∧ r.Passes data r' := by
  by_cases hlookup : op.form = .lookupSwitch
  · rw [← lookupSwitch_ok_iff hlookup hstop, operandOf, Opcode.width?, hlookup, Form.width?]
  have hdrop : operand.Fits op ∧ operand.Counted ∧
        (∃ data, operand.Spells op pc data ∧ r.Passes data r') ↔
      operand.Fits op ∧ ∃ data, operand.Spells op pc data ∧ r.Passes data r' := by
    have hcounted : operand.Fits op → operand.Counted := counted_of_fits hlookup
    tauto
  rw [hdrop]
  by_cases htable : op.form = .tableSwitch
  · rw [← tableSwitch_ok_iff htable hstop, operandOf, Opcode.width?, htable, Form.width?]
  -- All other operands follow their opcode at once.
  have hgap : gap op pc = 0 := by
    unfold gap
    split
    · contradiction
    · contradiction
    · rfl
  simp only [spells_iff_of_gap hgap]
  cases hwidth : op.width? with
  | some width => exact fixed_ok_iff hwidth
  | none =>
    have hwide : op.form = .wide := by
      cases hform : op.form <;> simp_all [Opcode.width?, Form.width?, Opcode.isSupported]
    rw [← wide_ok_iff hwide, operandOf, hwidth]

-- ---------------------------------------------------------------------------
-- Instructions
-- ---------------------------------------------------------------------------

structure Instruction.Spells (i : Instruction) (pc : Nat) (data : Bytes) : Prop where
  offset : i.offset = UInt32.ofNat pc
  fits : i.operand.Fits i.opcode
  counted : i.operand.Counted
  bytes : ∃ tail, i.operand.Spells i.opcode pc tail ∧ data = i.opcode.code :: tail

inductive Spelled : Nat → List Instruction → Bytes → Prop
  | nil (pc : Nat) : Spelled pc [] []
  | cons {pc : Nat} {i : Instruction} {rest : List Instruction} {first others : Bytes}
      (hfirst : i.Spells pc first) (hothers : Spelled (pc + first.length) rest others) :
      Spelled pc (i :: rest) (first ++ others)

theorem Instruction.Spells.length_pos {i : Instruction} {data : Bytes} (h : i.Spells pc data) :
    0 < data.length := by
  obtain ⟨tail, _, rfl⟩ := h.bytes
  exact Nat.succ_pos _

variable {start length fuel : Nat} {is : List Instruction}

theorem instruction_ok_iff {i : Instruction} :
    instruction start length r = .ok i r' ↔
      r'.position ≤ start + length ∧
        ∃ data, i.Spells (r.position - start) data ∧ r.Passes data r' := by
  simp only [instruction, Read.bind_ok_iff, Read.position_ok_iff, reading_ok_iff, Read.u1_ok_iff,
    Read.ensure_ok_iff, Read.pure_ok_iff]
  constructor
  · rintro ⟨_, _, ⟨rfl, rfl⟩, code, r₁, hcode, _, _, ⟨hsupported, rfl⟩, operand, r₂, hoperand,
      _, _, ⟨rfl, rfl⟩, _, _, ⟨hend, rfl⟩, rfl, rfl⟩
    have hstop : r₂.position ≤ start + length := by omega
    obtain ⟨hfits, hcounted, tail, hspells, hpass⟩ :=
      (operandOf_ok_iff hsupported hstop).mp hoperand
    exact ⟨hstop, _, ⟨rfl, hfits, hcounted, tail, hspells, rfl⟩, hcode.trans hpass⟩
  · rintro ⟨hstop, data, ⟨hoffset, hfits, hcounted, tail, hspells, rfl⟩, hpass⟩
    obtain ⟨op, offset, operand⟩ := i
    obtain rfl : offset = UInt32.ofNat (r.position - start) := hoffset
    obtain ⟨r₁, hcode, htail⟩ := passes_append.mp (show r.Passes (u1 op.code ++ tail) r' from hpass)
    have hsupported : op.isSupported = true := isSupported_of_fits hfits
    exact ⟨_, r, ⟨rfl, rfl⟩, op.code, r₁, hcode, (), r₁, ⟨hsupported, rfl⟩, operand, r',
      (operandOf_ok_iff hsupported hstop).mpr ⟨hfits, hcounted, tail, hspells, htail⟩,
      _, r', ⟨rfl, rfl⟩, (), r', ⟨by omega, rfl⟩, rfl, rfl⟩

theorem spelled_nil_iff : Spelled pc is [] ↔ is = [] := by
  constructor
  · intro h
    generalize hdata : ([] : Bytes) = data at h
    cases h with
    | nil => rfl
    | cons hfirst _ =>
      have hpos := hfirst.length_pos
      simp_all
  · rintro rfl
    exact .nil pc

theorem ended_iff (hend : r.position = start + length) :
    is = [] ∧ r = r' ↔
      r'.position = start + length ∧ ∃ data, Spelled (r.position - start) is data ∧
        r.Passes data r' := by
  constructor
  · rintro ⟨rfl, rfl⟩
    exact ⟨hend, [], .nil _, passes_nil.mpr rfl⟩
  · rintro ⟨hstop, data, hspelled, hpass⟩
    have hlen := hpass.position
    obtain rfl : data = [] := List.length_eq_zero_iff.mp (by omega)
    exact ⟨spelled_nil_iff.mp hspelled, passes_nil.mp hpass⟩

theorem instructions_succ_ok_iff :
    instructions start length (fuel + 1) r = .ok is r' ↔
      if r.position - start < length then
        ∃ i mid rest, instruction start length r = .ok i mid ∧
          instructions start length fuel mid = .ok rest r' ∧ i :: rest = is
      else is = [] ∧ r = r' := by
  rw [instructions, Read.bind_ok_iff]
  simp only [Read.position_ok_iff]
  split
  · rename_i hmore
    constructor
    · rintro ⟨_, _, ⟨rfl, rfl⟩, hread⟩
      simp only [hmore, if_true, Read.bind_ok_iff, Read.pure_ok_iff] at hread
      obtain ⟨i, mid, hfirst, rest, last, hrest, rfl, rfl⟩ := hread
      exact ⟨i, mid, rest, hfirst, hrest, rfl⟩
    · rintro ⟨i, mid, rest, hfirst, hrest, rfl⟩
      refine ⟨_, r, ⟨rfl, rfl⟩, ?_⟩
      simp only [hmore, if_true, Read.bind_ok_iff, Read.pure_ok_iff]
      exact ⟨i, mid, hfirst, rest, r', hrest, rfl, rfl⟩
  · rename_i hmore
    constructor
    · rintro ⟨_, _, ⟨rfl, rfl⟩, hread⟩
      simpa [hmore, eq_comm] using hread
    · rintro ⟨rfl, rfl⟩
      exact ⟨_, r, ⟨rfl, rfl⟩, by simp [hmore]⟩

/-- The loop reads the instructions that end exactly where the code does. Each takes a byte, so
the fuel lasts when it is no less than the bytes left. -/
theorem instructions_ok_iff (hstart : start ≤ r.position) (hstop : r.position ≤ start + length)
    (hfuel : start + length ≤ r.position + fuel) :
    instructions start length fuel r = .ok is r' ↔
      r'.position = start + length ∧
        ∃ data, Spelled (r.position - start) is data ∧ r.Passes data r' := by
  induction fuel generalizing r is with
  | zero => rw [← ended_iff (by omega), instructions, Read.pure_ok_iff, eq_comm]
  | succ fuel ih =>
    rw [instructions_succ_ok_iff]
    split
    · rename_i hmore
      constructor
      · rintro ⟨i, mid, rest, hfirst, hrest, rfl⟩
        obtain ⟨hmid, first, hspells, hpass⟩ := instruction_ok_iff.mp hfirst
        have hpos := hspells.length_pos
        have hlen := hpass.position
        obtain ⟨hend, others, hothers, hpass'⟩ :=
          (ih (by omega) hmid (by omega)).mp hrest
        have hplace : mid.position - start = r.position - start + first.length := by omega
        exact ⟨hend, first ++ others, .cons hspells (hplace ▸ hothers), hpass.trans hpass'⟩
      · rintro ⟨hend, data, hspelled, hpass⟩
        cases hspelled with
        | nil =>
          cases passes_nil.mp hpass
          omega
        | cons hfirst hothers =>
          rename_i i rest first others
          obtain ⟨mid, hpass, hpass'⟩ := passes_append.mp hpass
          have hpos := hfirst.length_pos
          have hlen := hpass.position
          have hlen' := hpass'.position
          have hplace : mid.position - start = r.position - start + first.length := by omega
          refine ⟨i, mid, rest, instruction_ok_iff.mpr ⟨by omega, first, hfirst, hpass⟩,
            (ih (by omega) (by omega) (by omega)).mpr ⟨hend, others, ?_, hpass'⟩, rfl⟩
          rw [hplace]
          exact hothers
    · exact ended_iff (by omega)

theorem decodeFrom_ok_iff :
    decodeFrom length r = .ok is r' ↔
      ∃ data, data.length = length ∧ Spelled 0 is data ∧ r.Passes data r' := by
  simp only [decodeFrom, Read.bind_ok_iff, Read.position_ok_iff]
  constructor
  · rintro ⟨_, _, ⟨rfl, rfl⟩, hread⟩
    obtain ⟨hend, data, hspelled, hpass⟩ :=
      (instructions_ok_iff (Nat.le_refl _) (Nat.le_add_right _ _) (Nat.le_refl _)).mp hread
    rw [Nat.sub_self] at hspelled
    have hlen := hpass.position
    exact ⟨data, by omega, hspelled, hpass⟩
  · rintro ⟨data, rfl, hspelled, hpass⟩
    refine ⟨_, _, ⟨rfl, rfl⟩, ?_⟩
    rw [instructions_ok_iff (Nat.le_refl _) (Nat.le_add_right _ _) (Nat.le_refl _), Nat.sub_self]
    exact ⟨hpass.position, data, hspelled, hpass⟩

/-- Code is decoded into the instructions that it spells from its first byte to its last. -/
theorem decode_ok_iff {code : Bytes} : decode code = .ok is ↔ Spelled 0 is code := by
  simp only [decode, Read.runOn_ok_iff, decodeFrom_ok_iff]
  constructor
  · rintro ⟨r', data, hlen, hspelled, hpass⟩
    have hrest : code = data ++ r'.rest := hpass.rest
    obtain rfl : code = data := by
      simpa [hlen] using congrArg (List.take data.length) hrest
    exact hspelled
  · intro h
    exact ⟨_, code, rfl, h, passes_all .memory code⟩

end

end ClassHeader.Bytecode
