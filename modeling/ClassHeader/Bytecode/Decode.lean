import ClassHeader.Binary.Reader
import ClassHeader.Bytecode.Encode

/-!
# Decoding instructions

Code is read instruction by instruction up to a given length. An operand that
the data cannot hold, a table larger than the code, an opcode outside the
instruction set and an instruction that ends behind the code are faults.
-/

namespace ClassHeader.Bytecode

open Binary

def invalid (detail : Bytes) : Error := .invalidData .bytecode [] detail

def reading {α : Type} (pc : Nat) (step : Read α) : Read α :=
  Read.mapError (fun _ e => .causedBy {
    phase := .bytecode, kind := .invalidData
    detail := text "truncated instruction at offset " ++ Text.ofNat pc } e) step

def placed (op : Opcode) (pc : Nat) : Bytes := op.name ++ text " at offset " ++ Text.ofNat pc

def fixedOperand (op : Opcode) (data : Bytes) : Result Operand :=
  let index := UInt16.ofNat (toNat (data.take 2))
  match op.form, data with
  | .plain, [] => return .empty
  | .byte, [a] => return .byte a.toInt8
  | .short, [_, _] => return .short index.toInt16
  | .shortPool, [a] => return .pool a.toUInt16
  | .elementType, [a] =>
    if isElementType a then return .newArray a
    else throw (invalid (text "newarray: invalid element type " ++ Text.ofNat a.toNat))
  | .slot, [a] => return .slot a.toUInt16
  | .increment, [a, b] => return .increment a.toUInt16 b.toInt8.toInt16
  | .branch, [_, _] => return .branch index.toInt16.toInt32
  | .farBranch, [_, _, _, _] => return .branch (UInt32.ofNat (toNat data)).toInt32
  | .invokeInterface, [_, _, count, zero] =>
    if count = 0 ∨ zero ≠ 0 then
      throw (invalid (text "invokeinterface: count " ++ Text.ofNat count.toNat ++
        text ", reserved byte " ++ Text.ofNat zero.toNat))
    else return .invokeInterface index count
  | .invokeDynamic, [_, _, zero, zero'] =>
    if zero ≠ 0 ∨ zero' ≠ 0 then
      throw (invalid (text "invokedynamic: reserved bytes must be zero"))
    else return .invokeDynamic index
  | .multiArray, [_, _, dimensions] =>
    if dimensions = 0 then
      throw (invalid (text "multianewarray: dimensions must be at least 1"))
    else return .multiArray index dimensions
  | .pool, [_, _] => return .pool index
  | form, _ =>
    match form.width? with
    | some width => throw (.dataSize .bytecode op.name width data.length)
    | none => throw (.unsupported .bytecode (text "operation not supported: " ++ op.name))

def checkTable (op : Opcode) (pc : Nat) (stop : Nat) (size : Int) : Read Unit := do
  -- Checked ahead of the entries, so no loop is as long as a wrong size says.
  let left : Int := stop - (← Read.position)
  ensure (size ≤ left) (invalid (placed op pc ++ text ": table of " ++ Text.ofInt size ++
    text " bytes overruns code array (" ++ Text.ofInt left ++ text " left)"))

/-- Keys with jump distances, each key greater than the one before. -/
def lookupPairs (op : Opcode) (pc : Nat) : Option Int32 → Nat → Read (List (Int32 × Int32))
  | _, 0 => return []
  | previous, n + 1 => do
    let key ← reading pc Read.s4
    let distance ← reading pc Read.s4
    ensure (previous.all (· < key))
      (invalid (placed op pc ++ text ": keys not sorted"))
    let others ← lookupPairs op pc (some key) n
    return (key, distance) :: others

def wideAmount (inner : Opcode) (pc : Nat) : Read Int16 :=
  if inner = Opcode.iinc then reading pc Read.s2 else pure 0

def variableOperand (op : Opcode) (pc stop : Nat) : Read Operand := do
  match op.form with
  | .tableSwitch =>
    let _ ← reading pc (Read.take (padding pc))
    let fallback ← reading pc Read.s4
    let low ← reading pc Read.s4
    let high ← reading pc Read.s4
    ensure (low ≤ high) (invalid (placed op pc ++ text ": high " ++ Text.ofInt high.toInt ++
      text " < low " ++ Text.ofInt low.toInt))
    let size := high.toInt - low.toInt + 1
    checkTable op pc stop (size * 4)
    let distances ← Read.times (reading pc Read.s4) size.toNat
    return .tableSwitch fallback low high distances
  | .lookupSwitch =>
    let _ ← reading pc (Read.take (padding pc))
    let fallback ← reading pc Read.s4
    let count ← reading pc Read.s4
    ensure (0 ≤ count)
      (invalid (placed op pc ++ text ": negative pair count " ++ Text.ofInt count.toInt))
    checkTable op pc stop (count.toInt * 8)
    let pairs ← lookupPairs op pc none count.toInt.toNat
    return .lookupSwitch fallback pairs
  | .wide =>
    let inner : Opcode := ⟨← reading pc Read.u1⟩
    ensure (inner.form = .slot ∨ inner = Opcode.iinc)
      (invalid (placed op pc ++ text ": " ++ inner.name ++ text " cannot be widened"))
    let index ← reading pc Read.u2
    let amount ← wideAmount inner pc
    return .wide inner index amount
  | _ => throw (.unsupported .bytecode (text "operation not supported: " ++ op.name))

def operandOf (op : Opcode) (pc stop : Nat) : Read Operand :=
  match op.width? with
  | none => variableOperand op pc stop
  | some width => do
    let data ← reading pc (Read.take width)
    MonadExcept.ofExcept (fixedOperand op data)

def instruction (start length : Nat) : Read Instruction := do
  let pc := (← Read.position) - start
  let op : Opcode := ⟨← reading pc Read.u1⟩
  ensure op.isSupported
    (.unsupported .bytecode (text "operation not supported: " ++ placed op pc))
  let operand ← operandOf op pc (start + length)
  ensure ((← Read.position) - start ≤ length)
    (invalid (placed op pc ++ text " overruns code length " ++ Text.ofNat length))
  return { opcode := op, offset := UInt32.ofNat pc, operand }

/-- Instructions until `length` bytes are read; each takes at least one of the `fuel`. -/
def instructions (start length : Nat) : (fuel : Nat) → Read (List Instruction)
  | 0 => return []
  | fuel + 1 => do
    if (← Read.position) - start < length then
      let first ← instruction start length
      let others ← instructions start length fuel
      return first :: others
    else return []

def decodeFrom (length : Nat) : Read (List Instruction) := do
  instructions (← Read.position) length length

def decode (code : Bytes) : Result (List Instruction) :=
  Read.runOn (decodeFrom code.length) code

end ClassHeader.Bytecode
