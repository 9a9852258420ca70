import ClassHeader.Text.Basic

/-!
# Constants

The entries of a constant pool. Entries refer to one another by index.
-/

namespace ClassHeader

inductive Tag where
  | utf8
  | integer
  | float
  | long
  | double
  | classRef
  | string
  | fieldRef
  | methodRef
  | interfaceMethodRef
  | nameAndType
  | methodHandle
  | methodType
  | dynamic
  | invokeDynamic
  | moduleRef
  | packageRef
  deriving DecidableEq, Repr

namespace Tag

def all : List Tag :=
  [.utf8, .integer, .float, .long, .double, .classRef, .string, .fieldRef, .methodRef,
    .interfaceMethodRef, .nameAndType, .methodHandle, .methodType, .dynamic, .invokeDynamic,
    .moduleRef, .packageRef]

def code : Tag → UInt8
  | .utf8 => 1
  | .integer => 3
  | .float => 4
  | .long => 5
  | .double => 6
  | .classRef => 7
  | .string => 8
  | .fieldRef => 9
  | .methodRef => 10
  | .interfaceMethodRef => 11
  | .nameAndType => 12
  | .methodHandle => 15
  | .methodType => 16
  | .dynamic => 17
  | .invokeDynamic => 18
  | .moduleRef => 19
  | .packageRef => 20

def name : Tag → Bytes
  | .utf8 => text "Utf8"
  | .integer => text "Integer"
  | .float => text "Float"
  | .long => text "Long"
  | .double => text "Double"
  | .classRef => text "Class"
  | .string => text "String"
  | .fieldRef => text "Fieldref"
  | .methodRef => text "Methodref"
  | .interfaceMethodRef => text "InterfaceMethodref"
  | .nameAndType => text "NameAndType"
  | .methodHandle => text "MethodHandle"
  | .methodType => text "MethodType"
  | .dynamic => text "Dynamic"
  | .invokeDynamic => text "InvokeDynamic"
  | .moduleRef => text "Module"
  | .packageRef => text "Package"

def ofCode? (code : UInt8) : Option Tag := all.find? (·.code = code)

def nameOfCode (code : UInt8) : Bytes :=
  match ofCode? code with
  | some tag => tag.name
  | none => text "Tag(" ++ Text.ofNat code.toNat ++ text ")"

end Tag

inductive Constant where
  | utf8 (value : Bytes)
  | integer (value : Int32)
  | float (bits : UInt32)
  | long (high low : UInt32)
  | double (high low : UInt32)
  | classRef (name : UInt16)
  | string (value : UInt16)
  | fieldRef (owner nameAndType : UInt16)
  | methodRef (owner nameAndType : UInt16)
  | interfaceMethodRef (owner nameAndType : UInt16)
  | nameAndType (name descriptor : UInt16)
  | methodHandle (kind : UInt8) (reference : UInt16)
  | methodType (descriptor : UInt16)
  | dynamic (bootstrap nameAndType : UInt16)
  | invokeDynamic (bootstrap nameAndType : UInt16)
  | moduleRef (name : UInt16)
  | packageRef (name : UInt16)
  deriving DecidableEq, Repr

namespace Constant

def tag : Constant → Tag
  | .utf8 _ => .utf8
  | .integer _ => .integer
  | .float _ => .float
  | .long _ _ => .long
  | .double _ _ => .double
  | .classRef _ => .classRef
  | .string _ => .string
  | .fieldRef _ _ => .fieldRef
  | .methodRef _ _ => .methodRef
  | .interfaceMethodRef _ _ => .interfaceMethodRef
  | .nameAndType _ _ => .nameAndType
  | .methodHandle _ _ => .methodHandle
  | .methodType _ => .methodType
  | .dynamic _ _ => .dynamic
  | .invokeDynamic _ _ => .invokeDynamic
  | .moduleRef _ => .moduleRef
  | .packageRef _ => .packageRef

/-- Wide constants take two slots of the pool, the second of which stays empty. -/
def isWide : Constant → Bool
  | .long _ _ | .double _ _ => true
  | _ => false

def slots (c : Constant) : Nat := if c.isWide then 2 else 1

def memberIndices? : Constant → Option (UInt16 × UInt16)
  | .fieldRef owner nat | .methodRef owner nat | .interfaceMethodRef owner nat => some (owner, nat)
  | _ => none

def isReferenceKind (kind : UInt8) : Bool := 1 ≤ kind && kind ≤ 9

def referenceTags (kind : UInt8) : List Tag :=
  if 1 ≤ kind ∧ kind ≤ 4 then [.fieldRef]
  else if kind = 9 then [.interfaceMethodRef]
  else if kind = 6 ∨ kind = 7 then [.methodRef, .interfaceMethodRef]
  else [.methodRef]

end Constant

def joinWords (high low : UInt32) : UInt64 := high.toUInt64 <<< 32 ||| low.toUInt64

def splitWord (bits : UInt64) : UInt32 × UInt32 := ((bits >>> 32).toUInt32, bits.toUInt32)

end ClassHeader
