import ClassHeader.Binary.Shrinks
import ClassHeader.ClassFile.Payload

/-!
# Nested attributes

The attributes inside a code payload are smaller than the payload, so working
through attributes of attributes comes to an end.
-/

namespace ClassHeader

open Binary Binary.Read

namespace Bytecode

theorem reading_shrinks {α : Type} {pc : Nat} {step : Read α} (h : Shrinks step) :
    Shrinks (reading pc step) := h.mapError

theorem checkTable_shrinks (op : Opcode) (pc stop : Nat) (size : Int) :
    Shrinks (checkTable op pc stop size) := .bind .position fun _ => .ensure

theorem lookupPairs_shrinks (op : Opcode) (pc : Nat) (previous : Option Int32) (n : Nat) :
    Shrinks (lookupPairs op pc previous n) := by
  induction n generalizing previous with
  | zero => exact .pure _
  | succ n ih =>
    exact .bind (reading_shrinks .s4) fun _ => .bind (reading_shrinks .s4) fun _ =>
      .bind .ensure fun _ => .bind (ih _) fun _ => .pure _

theorem variableOperand_shrinks (op : Opcode) (pc stop : Nat) :
    Shrinks (variableOperand op pc stop) := by
  unfold variableOperand
  split
  · exact .bind (reading_shrinks (.take _)) fun _ => .bind (reading_shrinks .s4) fun _ =>
      .bind (reading_shrinks .s4) fun _ => .bind (reading_shrinks .s4) fun _ =>
      .bind .ensure fun _ => .bind (checkTable_shrinks _ _ _ _) fun _ =>
      .bind (.times (reading_shrinks .s4) _) fun _ => .pure _
  · exact .bind (reading_shrinks (.take _)) fun _ => .bind (reading_shrinks .s4) fun _ =>
      .bind (reading_shrinks .s4) fun _ => .bind .ensure fun _ =>
      .bind (checkTable_shrinks _ _ _ _) fun _ => .bind (lookupPairs_shrinks _ _ _ _) fun _ =>
      .pure _
  · exact .bind (reading_shrinks .u1) fun _ => .bind .ensure fun _ =>
      .bind (reading_shrinks .u2) fun _ =>
      .bind (.ite (reading_shrinks .s2) (.pure _)) fun _ => .pure _
  · exact .throw _

theorem operandOf_shrinks (op : Opcode) (pc stop : Nat) : Shrinks (operandOf op pc stop) := by
  unfold operandOf
  split
  · exact variableOperand_shrinks _ _ _
  · exact .bind (reading_shrinks (.take _)) fun _ => .ofExcept _

theorem instruction_shrinks (start length : Nat) : Shrinks (instruction start length) :=
  .bind .position fun _ => .bind (reading_shrinks .u1) fun _ => .bind .ensure fun _ =>
    .bind (operandOf_shrinks _ _ _) fun _ => .bind .position fun _ => .bind .ensure fun _ => .pure _

theorem instructions_shrinks (start length fuel : Nat) :
    Shrinks (instructions start length fuel) := by
  induction fuel with
  | zero => exact .pure _
  | succ fuel ih =>
    exact .bind .position fun _ => .ite
      (.bind (instruction_shrinks _ _) fun _ => .bind ih fun _ => .pure _) (.pure _)

theorem decodeFrom_shrinks (length : Nat) : Shrinks (decodeFrom length) :=
  .bind .position fun _ => instructions_shrinks _ _ _

end Bytecode

namespace ClassFile

theorem readPart_shrinks {α : Type} {part : Bytes} {step : Read α} (h : Shrinks step) :
    Shrinks (readPart part step) := h.mapError

theorem readPart_ok {α : Type} {part : Bytes} {step : Read α} {r r' : Reader} {a : α}
    (h : readPart part step r = .ok a r') : step r = .ok a r' := mapError_ok h

theorem readAttribute_shrinks (part : Bytes) : Shrinks (readAttribute part) :=
  .bind (readPart_shrinks .u2) fun _ => .bind (readPart_shrinks .u4) fun _ =>
    .bind (readPart_shrinks (.take _)) fun _ => .pure _

theorem info_le_of_readAttribute {part : Bytes} {r r' : Reader} {a : Attribute}
    (h : readAttribute part r = .ok a r') : a.info.length ≤ r.rest.length := by
  obtain ⟨nameIndex, r₁, h₁, h⟩ := bind_ok h
  obtain ⟨length, r₂, h₂, h⟩ := bind_ok h
  obtain ⟨info, r₃, h₃, h⟩ := bind_ok h
  cases h
  have := readPart_shrinks .u2 _ _ _ h₁
  have := readPart_shrinks .u4 _ _ _ h₂
  have := take_length (readPart_ok h₃)
  simp only
  omega

theorem info_le_of_times {part : Bytes} {n : Nat} {r r' : Reader} {attributes : List Attribute}
    (h : times (readAttribute part) n r = .ok attributes r') {a : Attribute}
    (ha : a ∈ attributes) : a.info.length ≤ r.rest.length := by
  induction n generalizing r attributes with
  | zero => cases h; simp at ha
  | succ n ih =>
    obtain ⟨first, r₁, h₁, h⟩ := bind_ok h
    obtain ⟨others, r₂, h₂, h⟩ := bind_ok h
    cases h
    rcases List.mem_cons.1 ha with rfl | ha
    · exact info_le_of_readAttribute h₁
    · exact Nat.le_trans (ih h₂ ha) (readAttribute_shrinks part _ _ _ h₁)

theorem info_le_of_readAttributes {part : Bytes} {r r' : Reader} {attributes : List Attribute}
    (h : readAttributes part r = .ok attributes r') {a : Attribute} (ha : a ∈ attributes) :
    a.info.length ≤ r.rest.length := by
  obtain ⟨count, r₁, h₁, h⟩ := bind_ok h
  exact Nat.le_trans (info_le_of_times h ha) (readPart_shrinks .u2 _ _ _ h₁)

end ClassFile

namespace Payload

theorem within_shrinks {α : Type} {name : Bytes} {size : Nat} {step : Read α} (h : Shrinks step) :
    Shrinks (within name size step) := h.mapError

theorem info_lt_of_readCode {info : Bytes} {r r' : Reader} {c : Code}
    (h : readCode info r = .ok c r') {a : Attribute} (ha : a ∈ c.attributes) :
    a.info.length < r.rest.length := by
  obtain ⟨_, r₁, h₁, h⟩ := bind_ok h
  obtain ⟨_, r₂, h₂, h⟩ := bind_ok h
  obtain ⟨_, r₃, h₃, h⟩ := bind_ok h
  obtain ⟨_, r₄, h₄, h⟩ := bind_ok h
  obtain ⟨_, r₅, h₅, h⟩ := bind_ok h
  obtain ⟨_, r₆, h₆, h⟩ := bind_ok h
  obtain ⟨_, r₇, h₇, h⟩ := bind_ok h
  obtain ⟨_, r₈, h₈, h⟩ := bind_ok h
  obtain ⟨_, r₉, h₉, h⟩ := bind_ok h
  obtain ⟨attributes, r₁₀, h₁₀, h⟩ := bind_ok h
  obtain ⟨_, r₁₁, h₁₁, h⟩ := bind_ok h
  cases h
  -- The first word takes bytes off the data, and no later step gives any back.
  have hw : r₁.rest.length < r.rest.length := by
    obtain ⟨data, mid, htake, hpure⟩ := bind_ok (mapError_ok h₁)
    cases hpure
    have := (take_length htake).2
    omega
  have := within_shrinks .u2 _ _ _ h₂
  have := within_shrinks .u4 _ _ _ h₃
  have := Shrinks.position _ _ _ h₄
  have := Shrinks.ensure _ _ _ h₅
  have := Shrinks.ensure _ _ _ h₆
  have := Bytecode.decodeFrom_shrinks _ _ _ _ h₇
  have := within_shrinks .u2 _ _ _ h₈
  have hrow : Shrinks RowFormat.handler.read :=
    .bind .u2 fun _ => .bind .u2 fun _ => .bind .u2 fun _ => .bind .u2 fun _ => .pure _
  have := Shrinks.times (within_shrinks hrow) _ _ _ _ h₉
  have := ClassFile.info_le_of_readAttributes h₁₀ ha
  omega

/-- The attributes inside a code payload are smaller than the payload. -/
theorem info_lt_of_code {p : Pool} {a b : Attribute} {c : Code} (h : code p a = .ok c)
    (hb : b ∈ c.attributes) : b.info.length < a.info.length := by
  cases hn : checkName p a AttributeName.code with
  | error e => simp [code, hn, bind, Except.bind] at h
  | ok _ =>
    simp only [code, hn, bind, Except.bind, runOn] at h
    split at h
    · rename_i heq
      cases h
      exact info_lt_of_readCode heq hb
    · cases h

end Payload
end ClassHeader
