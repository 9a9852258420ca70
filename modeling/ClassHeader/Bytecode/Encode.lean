import ClassHeader.Binary.Reader
import ClassHeader.Bytecode.Instruction
import ClassHeader.Error

/-!
# Encoding instructions

Offsets play no part: each instruction stands where the encoding of those before
it ends, and jump tables are padded for that place.
-/

namespace ClassHeader.Bytecode

open Binary

def padding (pc : Nat) : Nat := (4 - (pc + 1) % 4) % 4

def s4 (v : Int32) : Bytes := u4 v.toUInt32

/-- The bytes of an operand behind an opcode at `pc`; none if it is no operand at all. -/
def Operand.encode? (op : Opcode) (pc : Nat) : Operand → Option Bytes
  | .empty => if op.width? = some 0 then some [] else none
  | .byte value => some (u1 value.toUInt8)
  | .short value => some (u2 value.toUInt16)
  | .slot index => some (u1 index.toUInt8)
  | .pool index => some (if op.form = .shortPool then u1 index.toUInt8 else u2 index)
  | .newArray element => some (u1 element)
  | .increment index amount => some (u1 index.toUInt8 ++ u1 amount.toInt8.toUInt8)
  | .branch distance =>
    some (if op.form = .farBranch then s4 distance else u2 distance.toInt16.toUInt16)
  | .invokeInterface index count => some (u2 index ++ u1 count ++ u1 0)
  | .invokeDynamic index => some (u2 index ++ u2 0)
  | .multiArray index dimensions => some (u2 index ++ u1 dimensions)
  | .tableSwitch fallback low high distances =>
    some (List.replicate (padding pc) 0 ++ s4 fallback ++ s4 low ++ s4 high ++
      distances.flatMap s4)
  | .lookupSwitch fallback pairs =>
    some (List.replicate (padding pc) 0 ++ s4 fallback ++ u4 (UInt32.ofNat pairs.length) ++
      pairs.flatMap fun (key, distance) => s4 key ++ s4 distance)
  | .wide inner index amount =>
    some (u1 inner.code ++ u2 index ++ if inner = Opcode.iinc then u2 amount.toUInt16 else [])
  | .number _ => none

def Operand.typeName : Operand → Bytes
  | .number _ => text "int"
  | _ => text "<nil>"

def Instruction.encode (pc : Nat) (i : Instruction) : Result Bytes :=
  let op := i.opcode
  if !op.isSupported then
    throw (.unsupported .bytecode (text "operation not supported: " ++ op.name))
  else
    match i.operand.encode? op pc with
    | none =>
      throw (.typeMismatch .bytecode [op.name] (text "immediate for " ++ op.name)
        i.operand.typeName)
    | some data =>
      match op.width? with
      | some width =>
        if data.length = width then return op.code :: data
        else throw (.dataSize .bytecode op.name width data.length)
      | none => return op.code :: data

def encodeFrom (pc : Nat) : List Instruction → Result Bytes
  | [] => return []
  | i :: rest => do
    let data ← i.encode pc
    let others ← encodeFrom (pc + data.length) rest
    return data ++ others

def encode (instructions : List Instruction) : Result Bytes := encodeFrom 0 instructions

end ClassHeader.Bytecode
