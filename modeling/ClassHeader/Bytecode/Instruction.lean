import ClassHeader.Bytecode.Opcode

/-!
# Instructions

An instruction is an opcode at an offset with its operand. Operands are typed by
what they mean; which of them an opcode takes is decided by encoding.
-/

namespace ClassHeader.Bytecode

inductive Operand where
  | empty
  | slot (index : UInt16)
  | byte (value : Int8)
  | short (value : Int16)
  | pool (index : UInt16)
  | branch (distance : Int32)
  | increment (index : UInt16) (amount : Int16)
  | invokeInterface (index : UInt16) (count : UInt8)
  | invokeDynamic (index : UInt16)
  | newArray (element : UInt8)
  | multiArray (index : UInt16) (dimensions : UInt8)
  | tableSwitch (fallback low high : Int32) (distances : List Int32)
  | lookupSwitch (fallback : Int32) (pairs : List (Int32 × Int32))
  /-- The amount counts only when the widened opcode is `iinc`. -/
  | wide (op : Opcode) (index : UInt16) (amount : Int16)
  /-- A bare number, which no opcode takes. -/
  | number (value : Int)
  deriving DecidableEq, Repr

structure Instruction where
  opcode : Opcode
  offset : UInt32 := 0
  operand : Operand := .empty
  deriving DecidableEq, Repr

def elementTypes : List String :=
  ["boolean", "char", "float", "double", "byte", "short", "int", "long"]

def isElementType (code : UInt8) : Bool := 4 ≤ code && code ≤ 11

def elementTypeName (code : UInt8) : Bytes :=
  if 4 ≤ code then
    match elementTypes[code.toNat - 4]? with
    | some name => text name
    | none => text "ArrayType(" ++ Text.ofNat code.toNat ++ text ")"
  else text "ArrayType(" ++ Text.ofNat code.toNat ++ text ")"

namespace Instruction

def target (i : Instruction) (distance : Int32) : Int := i.offset.toNat + distance.toInt

def targets? (i : Instruction) : Option (List Int) :=
  match i.operand with
  | .branch distance => some [i.target distance]
  | .tableSwitch fallback _ _ distances => some ((fallback :: distances).map i.target)
  | .lookupSwitch fallback pairs => some ((fallback :: pairs.map (·.2)).map i.target)
  | _ => none

def poolIndex? (i : Instruction) : Option UInt16 :=
  match i.operand with
  | .pool index | .invokeInterface index _ | .invokeDynamic index | .multiArray index _ =>
    some index
  | _ => none

def operandText (i : Instruction) : Bytes :=
  let nat := fun n : Nat => Text.ofNat n
  match i.operand with
  | .empty => []
  | .slot index => text " " ++ nat index.toNat
  | .byte value => text " " ++ Text.ofInt value.toInt
  | .short value => text " " ++ Text.ofInt value.toInt
  | .pool index => text " #" ++ nat index.toNat
  | .branch distance => text " " ++ Text.ofInt (i.target distance)
  | .increment index amount =>
    text " " ++ nat index.toNat ++ text ", " ++ Text.ofInt amount.toInt
  | .invokeInterface index count => text " #" ++ nat index.toNat ++ text ", " ++ nat count.toNat
  | .invokeDynamic index => text " #" ++ nat index.toNat ++ text ", 0"
  | .newArray element => text " " ++ elementTypeName element
  | .multiArray index dimensions =>
    text " #" ++ nat index.toNat ++ text ", " ++ nat dimensions.toNat
  | .tableSwitch fallback low high _ =>
    text " \x7b " ++ Text.ofInt low.toInt ++ text " to " ++ Text.ofInt high.toInt ++
      text ", default: " ++ Text.ofInt (i.target fallback) ++ text " \x7d"
  | .lookupSwitch fallback pairs =>
    text " \x7b " ++ nat pairs.length ++ text " pairs, default: " ++
      Text.ofInt (i.target fallback) ++ text " \x7d"
  | .wide op index amount =>
    text " " ++ op.name ++ text " " ++ nat index.toNat ++
      if op = Opcode.iinc then text ", " ++ Text.ofInt amount.toInt else []
  | .number value => text " " ++ Text.ofInt value

def line (i : Instruction) : Bytes := i.opcode.name ++ i.operandText

end Instruction
end ClassHeader.Bytecode
