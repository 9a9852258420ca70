import ClassHeader.Proofs.Bytecode.Layout

/-!
# Decoding and encoding instructions

Code that is decoded and encoded again keeps every byte but the padding of its
switches, which becomes zero. Instructions that are encoded and decoded again keep
opcodes and operands, and get the offsets of the places they stand at.
-/

namespace ClassHeader.Bytecode

open Binary

/-- The offsets follow each other without gap or overlap from `pc` to `stop`. -/
def Tiles (pc : Nat) (is : List Instruction) (stop : Nat) : Prop :=
  match is with
  | [] => pc = stop
  | i :: rest =>
    i.offset.toNat = pc ∧ ∃ data, i.encode pc = .ok data ∧ Tiles (pc + data.length) rest stop

/-- The place is between a switch and the next multiple of four. -/
def Instruction.PadsAt (i : Instruction) (place : Nat) : Prop :=
  (i.opcode.form = .tableSwitch ∨ i.opcode.form = .lookupSwitch) ∧
    i.offset.toNat < place ∧ place < (i.offset.toNat / 4 + 1) * 4

instance (place : Nat) : DecidablePred (Instruction.PadsAt · place) := fun i => by
  unfold Instruction.PadsAt
  infer_instance

section

variable {pc : Nat} {i : Instruction} {is : List Instruction} {data : Bytes}

-- ---------------------------------------------------------------------------
-- One instruction
-- ---------------------------------------------------------------------------

theorem encode_of_fits (hfits : i.operand.Fits i.opcode)
    (hdata : i.operand.encode? i.opcode pc = some data) :
    i.encode pc = .ok (i.opcode.code :: data) := by
  obtain ⟨_, hwritten, hlen⟩ := encode?_of_fits hfits pc
  cases hdata.symm.trans hwritten
  simp only [Instruction.encode, isSupported_of_fits hfits, hdata]
  cases hwidth : i.opcode.width? with
  | none => rfl
  | some width => simp [hlen width hwidth, pure, Except.pure]

theorem padsAt_iff {k : Nat} (hoffset : i.offset.toNat = pc) :
    i.PadsAt (pc + k) ↔ 0 < k ∧ k ≤ gap i.opcode pc := by
  unfold Instruction.PadsAt gap padding
  split
  · rename_i hform
    simp only [hform, true_or, true_and]
    omega
  · rename_i hform
    simp only [hform, or_true, true_and]
    omega
  · rename_i htable hlookup
    constructor
    · rintro ⟨htable' | hlookup', _⟩
      · exact absurd htable' htable
      · exact absurd hlookup' hlookup
    · omega

/-- An instruction is written like the bytes it was read from, but with zeros for padding. -/
theorem Instruction.Spells.encode_ok (h : i.Spells pc data) (hoffset : i.offset.toNat = pc) :
    ∃ written, i.encode pc = .ok written ∧ written.length = data.length ∧
      (∀ k, i.PadsAt (pc + k) → k < data.length) ∧
      ∀ k, written[k]? = if i.PadsAt (pc + k) then some 0 else data[k]? := by
  obtain ⟨_, ⟨pad, body, hpad, rfl, hencode⟩, rfl⟩ := h.bytes
  refine ⟨_, encode_of_fits h.fits hencode, by simp [hpad], ?_, ?_⟩
  · intro k hpads
    have hk := (padsAt_iff hoffset).mp hpads
    simp only [List.length_cons, List.length_append]
    omega
  · intro k
    simp only [padsAt_iff hoffset]
    cases k with
    | zero => simp
    | succ k =>
      rw [List.getElem?_cons_succ, List.getElem?_cons_succ]
      by_cases hk : k < gap i.opcode pc
      · rw [if_pos ⟨Nat.succ_pos k, hk⟩, List.getElem?_append_left (by simpa using hk),
          List.getElem?_replicate_of_lt hk]
      · rw [if_neg (by omega), List.getElem?_append_right (by simpa using hk),
          List.getElem?_append_right (by omega), hpad, List.length_replicate]

-- ---------------------------------------------------------------------------
-- From bytes to instructions and back
-- ---------------------------------------------------------------------------

theorem Instruction.Spells.offset_toNat (h : i.Spells pc data) (hpc : pc < 2 ^ 32) :
    i.offset.toNat = pc := by
  rw [h.offset]
  exact UInt32.toNat_ofNat_of_lt' hpc

theorem encodeFrom_cons {first others : Bytes} (hfirst : i.encode pc = .ok first)
    (hothers : encodeFrom (pc + first.length) is = .ok others) :
    encodeFrom pc (i :: is) = .ok (first ++ others) := by
  simp [encodeFrom, hfirst, hothers, bind, Except.bind, pure, Except.pure]

theorem Spelled.tiles (h : Spelled pc is data) (hend : pc + data.length < 2 ^ 32) :
    Tiles pc is (pc + data.length) := by
  induction h with
  | nil => rfl
  | cons hfirst _ ih =>
    rw [List.length_append, ← Nat.add_assoc] at hend ⊢
    have hoffset := hfirst.offset_toNat (by omega)
    obtain ⟨written, hwritten, hlen, _⟩ := hfirst.encode_ok hoffset
    exact ⟨hoffset, written, hwritten, hlen ▸ ih hend⟩

theorem Spelled.le_offset (h : Spelled pc is data) (hend : pc + data.length < 2 ^ 32) :
    ∀ i ∈ is, pc ≤ i.offset.toNat := by
  induction h with
  | nil => simp
  | cons hfirst _ ih =>
    rw [List.length_append, ← Nat.add_assoc] at hend
    intro i hmem
    rcases List.mem_cons.mp hmem with rfl | hmem
    · exact Nat.le_of_eq (hfirst.offset_toNat (by omega)).symm
    · exact Nat.le_of_add_right_le (ih hend i hmem)

theorem Spelled.encodeFrom_ok (h : Spelled pc is data) (hend : pc + data.length < 2 ^ 32) :
    ∃ written, encodeFrom pc is = .ok written ∧ written.length = data.length ∧
      ∀ k, written[k]? = if ∃ i ∈ is, i.PadsAt (pc + k) then some 0 else data[k]? := by
  induction h with
  | nil => exact ⟨[], rfl, rfl, by simp⟩
  | cons hfirst hothers ih =>
    rename_i pc i rest first others
    rw [List.length_append, ← Nat.add_assoc] at hend
    have hoffset := hfirst.offset_toNat (by omega)
    obtain ⟨head, hhead, hheadlen, hinside, hheadbytes⟩ := hfirst.encode_ok hoffset
    obtain ⟨tail, htail, htaillen, htailbytes⟩ := ih hend
    refine ⟨head ++ tail, encodeFrom_cons hhead (hheadlen ▸ htail), by simp [hheadlen, htaillen],
      fun k => ?_⟩
    simp only [List.exists_mem_cons_iff]
    by_cases hk : k < first.length
    · -- The instructions behind stand further on, so none of them pads here.
      have hbehind : ¬ ∃ j ∈ rest, j.PadsAt (pc + k) := by
        rintro ⟨j, hmem, _, hlt, _⟩
        have hle := hothers.le_offset hend j hmem
        omega
      rw [List.getElem?_append_left (by omega), List.getElem?_append_left hk, hheadbytes]
      simp only [hbehind, or_false]
    · have hoff : ¬ i.PadsAt (pc + k) := fun hpads => hk (hinside k hpads)
      rw [List.getElem?_append_right (by omega), List.getElem?_append_right (by omega), hheadlen,
        htailbytes, Nat.add_assoc, Nat.add_sub_cancel' (by omega)]
      simp only [hoff, false_or]

theorem encode_of_decoded_code {code : Bytes} (hlen : code.length < 2 ^ 32)
    (h : decode code = .ok is) :
    ∃ data, encode is = .ok data ∧ data.length = code.length ∧
      (∀ k, data[k]? = if ∃ i ∈ is, i.PadsAt k then some 0 else code[k]?) ∧
      Tiles 0 is code.length := by
  have hspelled : Spelled 0 is code := decode_ok_iff.mp h
  have hend : 0 + code.length < 2 ^ 32 := by omega
  obtain ⟨data, hencode, hsame, hbytes⟩ := hspelled.encodeFrom_ok hend
  have htiles := hspelled.tiles hend
  simp only [Nat.zero_add] at hbytes htiles
  exact ⟨data, hencode, hsame, hbytes, htiles⟩

/-- A table switch behind one instruction, so with two bytes of padding, and one instruction
behind it. -/
def switchCode : Bytes :=
  [0, 0xaa, 7, 9, 0, 0, 0, 23, 0xff, 0xff, 0xff, 0xff, 0, 0, 0, 0, 0, 0, 0, 23, 0xff, 0xff, 0xff,
    0xff, 0xb1]

def switchInstructions : List Instruction :=
  [{ opcode := ⟨0⟩ },
    { opcode := ⟨0xaa⟩, offset := 1, operand := .tableSwitch 23 (-1) 0 [23, -1] },
    { opcode := ⟨0xb1⟩, offset := 24 }]

theorem encode_of_decoded_switch :
    switchCode.length < 2 ^ 32 ∧ decode switchCode = .ok switchInstructions ∧
      ∃ data, encode switchInstructions = .ok data ∧ data.length = switchCode.length ∧
        (∀ k, data[k]? =
          if ∃ i ∈ switchInstructions, i.PadsAt k then some 0 else switchCode[k]?) ∧
        Tiles 0 switchInstructions switchCode.length := by
  have hlen : switchCode.length < 2 ^ 32 := by decide
  have h : decode switchCode = .ok switchInstructions := by rfl
  exact ⟨hlen, h, encode_of_decoded_code hlen h⟩

-- ---------------------------------------------------------------------------
-- From instructions to bytes and back
-- ---------------------------------------------------------------------------

theorem spells_of_encode? {op : Opcode} {operand : Operand} (hfits : operand.Fits op)
    (hdata : operand.encode? op pc = some data) : operand.Spells op pc data := by
  suffices hbody : ∃ body, data = List.replicate (gap op pc) 0 ++ body by
    obtain ⟨body, rfl⟩ := hbody
    exact ⟨_, body, List.length_replicate, rfl, hdata⟩
  unfold gap
  split
  · rename_i hform
    cases operand with
    | tableSwitch =>
      cases hdata
      simp only [List.append_assoc]
      exact ⟨_, rfl⟩
    | _ => simp [Operand.Fits, hform] at hfits
  · rename_i hform
    cases operand with
    | lookupSwitch =>
      cases hdata
      simp only [List.append_assoc]
      exact ⟨_, rfl⟩
    | _ => simp [Operand.Fits, hform] at hfits
  · exact ⟨data, by simp⟩

theorem counted_of_length {op : Opcode} {operand : Operand}
    (hdata : operand.encode? op pc = some data) (hlen : data.length < 2 ^ 32) :
    operand.Counted := by
  cases operand with
  | lookupSwitch fallback pairs =>
    cases hdata
    simp only [List.length_append, length_flatMap length_pair] at hlen
    simp only [Operand.Counted]
    omega
  | _ => trivial

theorem encodeFrom_of_fits (h : ∀ i ∈ is, i.operand.Fits i.opcode) (pc : Nat) :
    ∃ data, encodeFrom pc is = .ok data := by
  induction is generalizing pc with
  | nil => exact ⟨[], rfl⟩
  | cons i rest ih =>
    obtain ⟨hfits, hrest⟩ := List.forall_mem_cons.mp h
    obtain ⟨data, hdata, _⟩ := encode?_of_fits hfits pc
    obtain ⟨others, hothers⟩ := ih hrest (pc + (i.opcode.code :: data).length)
    exact ⟨_, encodeFrom_cons (encode_of_fits hfits hdata) hothers⟩

/-- What is written for instructions that fit spells them, once their offsets are the places they
stand at. -/
theorem exists_spelled (h : ∀ i ∈ is, i.operand.Fits i.opcode)
    (hdata : encodeFrom pc is = .ok data) (hlen : data.length < 2 ^ 32) :
    ∃ placed, Spelled pc placed data ∧
      placed.map (fun i => (i.opcode, i.operand)) = is.map (fun i => (i.opcode, i.operand)) := by
  induction is generalizing pc data with
  | nil =>
    cases hdata
    exact ⟨[], .nil pc, rfl⟩
  | cons i rest ih =>
    obtain ⟨hfits, hrest⟩ := List.forall_mem_cons.mp h
    obtain ⟨tail, htail, _⟩ := encode?_of_fits hfits pc
    have hfirst := encode_of_fits hfits htail
    obtain ⟨others, hothers⟩ := encodeFrom_of_fits hrest (pc + (i.opcode.code :: tail).length)
    cases hdata.symm.trans (encodeFrom_cons hfirst hothers)
    simp only [List.length_append, List.length_cons] at hlen
    obtain ⟨placed, hplaced, hsame⟩ := ih hrest hothers (by omega)
    refine ⟨{ i with offset := UInt32.ofNat pc } :: placed, .cons ⟨rfl, hfits, ?_, tail, ?_, rfl⟩
      hplaced, by simp [hsame]⟩
    · exact counted_of_length htail (by omega)
    · exact spells_of_encode? hfits htail

theorem decode_of_encoded_instructions (h : ∀ i ∈ is, i.operand.Fits i.opcode) :
    ∃ data, encode is = .ok data ∧
      (data.length < 2 ^ 32 → ∃ placed, decode data = .ok placed ∧
        placed.map (fun i => (i.opcode, i.operand)) = is.map (fun i => (i.opcode, i.operand)) ∧
        Tiles 0 placed data.length) := by
  obtain ⟨data, hdata⟩ := encodeFrom_of_fits h 0
  refine ⟨data, hdata, fun hlen => ?_⟩
  obtain ⟨placed, hspelled, hsame⟩ := exists_spelled h hdata hlen
  have htiles := hspelled.tiles (by omega)
  rw [Nat.zero_add] at htiles
  exact ⟨placed, decode_ok_iff.mpr hspelled, hsame, htiles⟩

def looseInstructions : List Instruction :=
  [{ opcode := ⟨0xc4⟩, offset := 9, operand := .wide Opcode.iinc 256 (-1) },
    { opcode := ⟨0xab⟩, operand := .lookupSwitch 8 [(-5, 1), (3, -1)] },
    { opcode := ⟨0xa7⟩, operand := .branch (-32768) }]

theorem decode_of_encoded_loose :
    (∀ i ∈ looseInstructions, i.operand.Fits i.opcode) ∧
      ∃ data placed, encode looseInstructions = .ok data ∧ data.length < 2 ^ 32 ∧
        decode data = .ok placed ∧
        placed.map (fun i => (i.opcode, i.operand)) =
          looseInstructions.map (fun i => (i.opcode, i.operand)) ∧
        Tiles 0 placed data.length := by
  have h : ∀ i ∈ looseInstructions, i.operand.Fits i.opcode := by decide
  obtain ⟨data, hdata, hback⟩ := decode_of_encoded_instructions h
  have hlen : data.length < 2 ^ 32 := by
    have hsize : (encode looseInstructions).map List.length = .ok 35 := by rfl
    rw [hdata] at hsize
    have : data.length = 35 := Except.ok.inj hsize
    omega
  obtain ⟨placed, hplaced⟩ := hback hlen
  exact ⟨h, data, placed, hdata, hlen, hplaced⟩

end

end ClassHeader.Bytecode
