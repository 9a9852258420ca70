import ClassHeader.ClassFile.Payload

/-!
# Assembling class files

Class files from symbolic parts: constants, attributes and members that name
what they refer to. Assembling enters each constant into the pool once, in the
order in which it is first needed.
-/

namespace ClassHeader

/-! ## Constants -/

inductive ConstantSource where
  | utf8 (value : Bytes)
  | integer (value : Int32)
  | float (bits : UInt32)
  | long (value : UInt64)
  | double (bits : UInt64)
  | classRef (name : Bytes)
  | string (value : Bytes)
  | nameAndType (name descriptor : Bytes)
  | fieldRef (member : Pool.Member)
  | methodRef (member : Pool.Member)
  | interfaceMethodRef (member : Pool.Member)
  | methodHandle (kind : UInt8) (reference : UInt16)
  | methodType (descriptor : Bytes)
  | dynamic (bootstrap : UInt16) (name descriptor : Bytes)
  | invokeDynamic (bootstrap : UInt16) (name descriptor : Bytes)
  | moduleRef (name : Bytes)
  | packageRef (name : Bytes)
  /-- A constant whose indices are already known. -/
  | ready (c : Constant)
  deriving DecidableEq, Repr

namespace ConstantSource

/-! What is entered for a source, where `add` gives the index of a constant. -/

section

variable {m : Type → Type} [Monad m] (add : Constant → m UInt16)

def enterUtf8 (value : Bytes) : m UInt16 := add (.utf8 value)

def enterClass (name : Bytes) : m UInt16 := do add (.classRef (← enterUtf8 add name))

def enterNameAndType (name descriptor : Bytes) : m UInt16 := do
  let nameIndex ← enterUtf8 add name
  let descriptorIndex ← enterUtf8 add descriptor
  add (.nameAndType nameIndex descriptorIndex)

def enterMember (member : Pool.Member) : m (UInt16 × UInt16) := do
  let owner ← enterClass add member.owner
  let nat ← enterNameAndType add member.name member.descriptor
  return (owner, nat)

def enter : ConstantSource → m UInt16
  | .utf8 value => enterUtf8 add value
  | .integer value => add (.integer value)
  | .float bits => add (.float bits)
  | .long value => let (high, low) := splitWord value; add (.long high low)
  | .double bits => let (high, low) := splitWord bits; add (.double high low)
  | .classRef name => enterClass add name
  | .string value => do add (.string (← enterUtf8 add value))
  | .nameAndType name descriptor => enterNameAndType add name descriptor
  | .fieldRef member => do let (owner, nat) ← enterMember add member; add (.fieldRef owner nat)
  | .methodRef member => do let (owner, nat) ← enterMember add member; add (.methodRef owner nat)
  | .interfaceMethodRef member => do
    let (owner, nat) ← enterMember add member
    add (.interfaceMethodRef owner nat)
  | .methodHandle kind reference => add (.methodHandle kind reference)
  | .methodType descriptor => do add (.methodType (← enterUtf8 add descriptor))
  | .dynamic bootstrap name descriptor => do
    add (.dynamic bootstrap (← enterNameAndType add name descriptor))
  | .invokeDynamic bootstrap name descriptor => do
    add (.invokeDynamic bootstrap (← enterNameAndType add name descriptor))
  | .moduleRef name => do add (.moduleRef (← enterUtf8 add name))
  | .packageRef name => do add (.packageRef (← enterUtf8 add name))
  | .ready c => add c

end

end ConstantSource

namespace Pool

/-- The index of a constant, which enters the pool unless it is there already. -/
def add (c : Constant) : StateM Pool UInt16 := fun p =>
  match p.find? (some c) with
  | some i => (i, p)
  | none =>
    (UInt16.ofNat p.entries.length, ⟨p.entries ++ some c :: if c.isWide then [none] else []⟩)

def addUtf8 (value : Bytes) : StateM Pool UInt16 := ConstantSource.enterUtf8 add value

def addClass (name : Bytes) : StateM Pool UInt16 := ConstantSource.enterClass add name

def addNameAndType (name descriptor : Bytes) : StateM Pool UInt16 :=
  ConstantSource.enterNameAndType add name descriptor

def addMember (m : Member) : StateM Pool (UInt16 × UInt16) := ConstantSource.enterMember add m

def addSource (source : ConstantSource) : StateM Pool UInt16 := source.enter add

end Pool

/-! ## Attributes -/

structure LocalVariableSource where
  startPc : UInt16
  length : UInt16
  name : Bytes
  descriptor : Bytes
  slot : UInt16
  deriving DecidableEq, Repr

/-- Empty texts stand for index zero. -/
structure InnerClassSource where
  inner : Bytes
  outer : Bytes
  name : Bytes
  access : AccessFlags
  deriving DecidableEq, Repr

inductive AttributeSource where
  | code (maxStack maxLocals : UInt16) (code : Bytes) (instructions : List Bytecode.Instruction)
      (handlers : List ExceptionHandler) (attributes : List AttributeSource)
  | lineNumbers (rows : List LineNumber)
  | localVariables (rows : List LocalVariableSource)
  | exceptions (classes : List Bytes)
  | innerClasses (rows : List InnerClassSource)
  | bootstrapMethods (rows : List BootstrapMethod)
  | index (name : Bytes) (value : UInt16)
  | payload (name info : Bytes)
  deriving Inhabited

abbrev Assembly := ExceptT Error (StateM Pool)

namespace AttributeSource

/-- An attribute whose name enters the pool behind what its payload needs. -/
def named (name info : Bytes) : Assembly Attribute := do
  return { nameIndex := ← Pool.addUtf8 name, info }

def localVariable (row : LocalVariableSource) : Assembly LocalVariable := do
  let nameIndex ← Pool.addUtf8 row.name
  let descriptorIndex ← Pool.addUtf8 row.descriptor
  return {
    startPc := row.startPc, length := row.length, nameIndex, descriptorIndex, slot := row.slot }

def innerClass (row : InnerClassSource) : Assembly InnerClass := do
  let inner ← Pool.addClass row.inner
  let outer ← if row.outer = [] then pure 0 else Pool.addClass row.outer
  let name ← if row.name = [] then pure 0 else Pool.addUtf8 row.name
  return { inner, outer, name, access := row.access }

mutual

def assemble : AttributeSource → Assembly Attribute
  | .code maxStack maxLocals data instructions handlers attributes => do
    let attributes ← assembleAll attributes
    let payload : Code :=
      { maxStack, maxLocals, code := data, instructions, handlers, attributes }
    named AttributeName.code (← MonadExcept.ofExcept payload.encode)
  | .lineNumbers rows =>
    named AttributeName.lineNumberTable (encodeTable RowFormat.lineNumber.encode rows)
  | .localVariables rows => do
    let rows ← rows.mapM localVariable
    named AttributeName.localVariableTable (encodeTable RowFormat.localVariable.encode rows)
  | .exceptions classes => do
    let indices ← classes.mapM fun name => Pool.addClass name
    named AttributeName.exceptions (encodeTable Binary.u2 indices)
  | .innerClasses rows => do
    let rows ← rows.mapM innerClass
    named AttributeName.innerClasses (encodeTable RowFormat.innerClass.encode rows)
  | .bootstrapMethods rows =>
    named AttributeName.bootstrapMethods (encodeTable BootstrapMethod.encode rows)
  | .index name value => named name (Binary.u2 value)
  | .payload name info => named name info

def assembleAll : List AttributeSource → Assembly (List Attribute)
  | [] => return []
  | a :: rest => do
    let first ← a.assemble
    let others ← assembleAll rest
    return first :: others

end

end AttributeSource

/-! ## Classes -/

structure MemberSource where
  access : AccessFlags
  name : Bytes
  descriptor : Bytes
  attributes : List AttributeSource

def MemberSource.assemble (m : MemberSource) : Assembly MemberInfo := do
  let attributes ← AttributeSource.assembleAll m.attributes
  let nameIndex ← Pool.addUtf8 m.name
  let descriptorIndex ← Pool.addUtf8 m.descriptor
  return { access := m.access, nameIndex, descriptorIndex, attributes }

inductive BuildStep where
  | version (major minor : UInt16)
  | access (flags : AccessFlags)
  | interface (name : Bytes)
  | constant (c : ConstantSource)
  | field (m : MemberSource)
  | method (m : MemberSource)
  | classAttribute (a : AttributeSource)

namespace ClassFile

/-- A public class of version 52 without members. An empty name means no superclass. -/
def start (name superName : Bytes) : ClassFile :=
  let ((thisClass, superClass), pool) := (do
    let thisClass ← Pool.addClass name
    let superClass ← if superName = [] then pure 0 else Pool.addClass superName
    return (thisClass, superClass) : StateM Pool (UInt16 × UInt16)).run Pool.empty
  { magic := classMagic, minor := 0, major := 52, pool
    access := AccessFlags.isPublic ||| AccessFlags.isSuper, thisClass, superClass
    interfaces := [], fields := [], methods := [], attributes := [] }

def onPool {α : Type} (c : ClassFile) (part : Assembly α) : Result (α × ClassFile) :=
  match part.run.run c.pool with
  | (.ok a, pool) => .ok (a, { c with pool })
  | (.error e, _) => .error e

def extend (c : ClassFile) : BuildStep → Result (Option UInt16 × ClassFile)
  | .version major minor => return (none, { c with major, minor })
  | .access access => return (none, { c with access })
  | .interface name => do
    let (i, c) ← c.onPool (Pool.addClass name)
    return (none, { c with interfaces := c.interfaces ++ [i] })
  | .constant source => do
    let (i, c) ← c.onPool (Pool.addSource source)
    return (some i, c)
  | .field m => do
    let (m, c) ← c.onPool m.assemble
    return (none, { c with fields := c.fields ++ [m] })
  | .method m => do
    let (m, c) ← c.onPool m.assemble
    return (none, { c with methods := c.methods ++ [m] })
  | .classAttribute a => do
    let (a, c) ← c.onPool a.assemble
    return (none, { c with attributes := c.attributes ++ [a] })

def extendAll (c : ClassFile) : List BuildStep → Result (List UInt16 × ClassFile)
  | [] => return ([], c)
  | step :: steps => do
    let (index, c) ← c.extend step
    let (indices, c) ← c.extendAll steps
    return (index.toList ++ indices, c)

def assemble (name superName : Bytes) (steps : List BuildStep) :
    Result (List UInt16 × ClassFile) :=
  (start name superName).extendAll steps

end ClassFile
end ClassHeader
