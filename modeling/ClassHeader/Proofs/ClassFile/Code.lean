import ClassHeader.Proofs.Bytecode.RoundTrip
import ClassHeader.Proofs.ClassFile.Tables

/-!
# Code payloads

`Payload.code_ok_iff`: a payload is parsed as code exactly when it is the encoding of
that code, which then has bytes that spell its instructions and counts that fit their
fields.
-/

namespace ClassHeader

open Binary Binary.Read Binary.Reader

/-- Code that can be written down: its bytes spell its instructions, and its tables fit their
counts. -/
structure Code.WellFormed (c : Code) : Prop where
  code_pos : 0 < c.code.length
  code_lt : c.code.length < 65536
  spelled : Bytecode.Spelled 0 c.instructions c.code
  handlers : c.handlers.length ≤ 65535
  attributes : FitsTable Attribute.Representable c.attributes

def Code.written (c : Code) : Bytes :=
  u2 c.maxStack ++ u2 c.maxLocals ++ u4 (UInt32.ofNat c.code.length) ++ c.code ++
    encodeTable RowFormat.handler.encode c.handlers ++ encodeTable Attribute.encode c.attributes

theorem Code.encode_of_pos {c : Code} (h : 0 < c.code.length) : c.encode = .ok c.written := by
  rw [Code.encode, if_neg (List.ne_nil_of_length_pos h)]
  rfl

namespace Payload

variable {r r' : Reader}

theorem handlers_ok_iff {name : Bytes} {size : Nat} {handlers : List ExceptionHandler} :
    (∃ count mid, r.Passes (Binary.u2 count) mid ∧
      Read.times (within name size RowFormat.handler.read) count.toNat mid = .ok handlers r') ↔
    handlers.length ≤ 65535 ∧ r.Passes (encodeTable RowFormat.handler.encode handlers) r' := by
  simpa [FitsTable] using (within_reads RowFormat.handler_lawful.reads name size).counted

theorem readCode_ok_iff {info : Bytes} {source : Source} {c : Code} :
    readCode info { source, rest := info } = .ok c r' ↔
      c.WellFormed ∧ c.written = info ∧
        r' = { source, rest := [], position := info.length } := by
  simp only [readCode, finish, bind_ok_iff, within_ok_iff, u2_ok_iff, u4_ok_iff, position_ok_iff,
    ensure_ok_iff, Bytecode.decodeFrom_ok_iff, ClassFile.readAttributes_reads _ _ _ _, pure_ok_iff]
  constructor
  · rintro ⟨maxStack, r₁, hstack, maxLocals, r₂, hlocals, length, r₃, hlength, _, _, ⟨rfl, rfl⟩,
      _, _, ⟨hrange, rfl⟩, _, _, ⟨-, rfl⟩, instructions, r₄, ⟨data, hlen, hspelled, hdata⟩,
      count, r₅, hcount, handlers, r₆, hhandlers, attributes, r₇, ⟨hattributes, htable⟩,
      _, _, ⟨_, _, ⟨rfl, rfl⟩, hend, rfl⟩, rfl, rfl⟩
    obtain ⟨hrows, hrowsPass⟩ := handlers_ok_iff.mp ⟨count, r₅, hcount, hhandlers⟩
    have hfront := (hstack.trans hlocals).trans hlength
    have hcode : (info.drop r₃.position).take length.toNat = data := by
      rw [hfront.drop_position, hdata.rest, ← hlen, List.take_left]
    have hwritten : UInt32.ofNat data.length = length := by
      rw [hlen, UInt32.ofNat_toNat]
    rw [hcode]
    refine ⟨⟨hlen ▸ hrange.1, hlen ▸ hrange.2, hspelled, hrows, hattributes⟩, ?_⟩
    refine Reader.eq_all_of_passes ?_ hend
    rw [Code.written, hwritten]
    exact ((hfront.trans hdata).trans hrowsPass).trans htable
  · rintro ⟨hc, rfl, rfl⟩
    have hpass := passes_all source c.written
    nth_rewrite 2 [Code.written] at hpass
    simp only [passes_append] at hpass
    obtain ⟨r₆, ⟨r₅, ⟨r₃, ⟨r₂, ⟨r₁, hstack, hlocals⟩, hlength⟩, hdata⟩, hrows⟩, htable⟩ := hpass
    obtain ⟨count, r₄, hcount, hhandlers⟩ := handlers_ok_iff.mpr ⟨hc.handlers, hrows⟩
    have hfront := (hstack.trans hlocals).trans hlength
    have hlt := hc.code_lt
    have hlen : (UInt32.ofNat c.code.length).toNat = c.code.length := by
      rw [UInt32.toNat_ofNat', Nat.mod_eq_of_lt (by omega)]
    have hrest : c.code.length ≤ c.written.length - r₃.position := by
      rw [← List.length_drop, hfront.drop_position, hdata.rest, List.length_append]
      exact Nat.le_add_right _ _
    have hcode : (c.written.drop r₃.position).take c.code.length = c.code := by
      rw [hfront.drop_position, hdata.rest, List.take_left]
    refine ⟨_, r₁, hstack, _, r₂, hlocals, _, r₃, hlength, _, _, ⟨rfl, rfl⟩, (), _,
      ⟨by rw [hlen]; exact ⟨hc.code_pos, hlt⟩, rfl⟩, (), _, ⟨by rwa [hlen], rfl⟩, _, r₅,
      ⟨c.code, hlen.symm, hc.spelled, hdata⟩, count, r₄, hcount, _, r₆, hhandlers, _, _,
      ⟨hc.attributes, htable⟩, (), _, ⟨_, _, ⟨rfl, rfl⟩, rfl, rfl⟩, ?_, rfl⟩
    rw [hlen, hcode]

/-- Only what code is encoded as is parsed as that code. -/
theorem code_ok_iff {p : Pool} {a : Attribute} {c : Code} :
    code p a = .ok c ↔
      a.name p = .ok AttributeName.code ∧ c.WellFormed ∧ c.encode = .ok a.info := by
  simp only [code, checkName, Result.bind_ok_iff, Result.ensure_ok_iff, runOn_ok_iff,
    readCode_ok_iff]
  constructor
  · rintro ⟨_, ⟨name, hname, rfl⟩, r', hc, hwritten, rfl⟩
    exact ⟨hname, hc, by rw [Code.encode_of_pos hc.code_pos, hwritten]⟩
  · rintro ⟨hname, hc, hencode⟩
    rw [Code.encode_of_pos hc.code_pos] at hencode
    exact ⟨(), ⟨_, hname, rfl⟩, _, hc, Except.ok.inj hencode, rfl⟩

/-- Parsing and encoding undo each other: what is parsed is encoded as the payload it came from,
and what can be written is parsed again, with the instructions that its bytes spell. -/
theorem code_inverts_encode {p : Pool} {i : UInt16} (hname : p.utf8 i = .ok AttributeName.code) :
    (∀ info c, code p { nameIndex := i, info } = .ok c →
      c.encode = .ok info ∧ 1 ≤ c.code.length ∧ c.code.length ≤ 65535 ∧
        Bytecode.decode c.code = .ok c.instructions) ∧
    ∀ (c : Code) (instructions : List Bytecode.Instruction),
      1 ≤ c.code.length → c.code.length ≤ 65535 → Bytecode.decode c.code = .ok instructions →
      c.handlers.length ≤ 65535 → FitsTable Attribute.Representable c.attributes →
      ∃ info, c.encode = .ok info ∧
        code p { nameIndex := i, info } = .ok { c with instructions } := by
  constructor
  · intro info c h
    obtain ⟨-, hc, hencode⟩ := code_ok_iff.mp h
    have hlt := hc.code_lt
    exact ⟨hencode, hc.code_pos, by omega, Bytecode.decode_ok_iff.mpr hc.spelled⟩
  · intro c instructions hpos hle hdecode hhandlers hattributes
    have hc : Code.WellFormed { c with instructions } := {
      code_pos := hpos
      code_lt := by simp only; omega
      spelled := Bytecode.decode_ok_iff.mp hdecode
      handlers := hhandlers
      attributes := hattributes }
    -- Instructions are not written where code is given.
    have hwritten : c.written = Code.written { c with instructions } := rfl
    refine ⟨c.written, Code.encode_of_pos hpos, code_ok_iff.mpr ⟨hname, hc, ?_⟩⟩
    rw [Code.encode_of_pos hc.code_pos, hwritten]

/-- A switch that is guarded, with an attribute of its own and instructions that are not those of
its code. -/
def guardedSwitch : Code where
  maxStack := 2
  maxLocals := 1
  code := Bytecode.switchCode
  instructions := [{ opcode := ⟨0⟩ }]
  handlers := [⟨0, 24, 24, 0⟩]
  attributes := [⟨7, [0xca, 0xfe]⟩]

def codePool : Pool := ⟨[none, some (.utf8 AttributeName.code)]⟩

theorem code_inverts_encode_switch :
    codePool.utf8 1 = .ok AttributeName.code ∧
      ∃ info c, guardedSwitch.encode = .ok info ∧
        code codePool { nameIndex := 1, info } = .ok c ∧
        c.instructions = Bytecode.switchInstructions ∧
        c.encode = .ok info ∧ Bytecode.decode c.code = .ok c.instructions := by
  have hname : codePool.utf8 1 = .ok AttributeName.code := by rfl
  obtain ⟨hback, hforth⟩ := code_inverts_encode hname
  obtain ⟨info, hencode, hparse⟩ := hforth guardedSwitch Bytecode.switchInstructions (by decide)
    (by decide) (by rfl) (by decide) (by decide)
  obtain ⟨hsame, -, -, hdecode⟩ := hback info _ hparse
  exact ⟨hname, info, _, hencode, hparse, rfl, hsame, hdecode⟩

end Payload
end ClassHeader
