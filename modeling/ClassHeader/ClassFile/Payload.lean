import ClassHeader.Bytecode.Decode
import ClassHeader.ClassFile.Basic
import ClassHeader.ClassFile.Decode

/-!
# Attribute payloads

The payloads whose layout is known, parsed under their own attribute name only.
Parsing accepts a payload exactly when it has the size that its counts ask for.
-/

namespace ClassHeader

open Binary

/-! ## Names -/

namespace AttributeName

def code : Bytes := text "Code"
def lineNumberTable : Bytes := text "LineNumberTable"
def sourceFile : Bytes := text "SourceFile"
def constantValue : Bytes := text "ConstantValue"
def localVariableTable : Bytes := text "LocalVariableTable"
def exceptions : Bytes := text "Exceptions"
def signature : Bytes := text "Signature"
def innerClasses : Bytes := text "InnerClasses"
def bootstrapMethods : Bytes := text "BootstrapMethods"
def deprecated : Bytes := text "Deprecated"
def synthetic : Bytes := text "Synthetic"

end AttributeName

/-! ## Payload types -/

structure LineNumber where
  startPc : UInt16
  line : UInt16
  deriving DecidableEq, Repr

structure LocalVariable where
  startPc : UInt16
  length : UInt16
  nameIndex : UInt16
  descriptorIndex : UInt16
  slot : UInt16
  deriving DecidableEq, Repr

structure InnerClass where
  inner : UInt16
  outer : UInt16
  name : UInt16
  access : AccessFlags
  deriving DecidableEq, Repr

structure BootstrapMethod where
  reference : UInt16
  arguments : List UInt16
  deriving DecidableEq, Repr

/-- Instructions from `startPc` up to `stopPc` are guarded; a catch type of zero catches all. -/
structure ExceptionHandler where
  startPc : UInt16
  stopPc : UInt16
  handlerPc : UInt16
  catchType : UInt16
  deriving DecidableEq, Repr

structure Code where
  maxStack : UInt16
  maxLocals : UInt16
  code : Bytes
  instructions : List Bytecode.Instruction
  handlers : List ExceptionHandler
  attributes : List Attribute
  deriving DecidableEq, Repr

/-! ## Rows -/

structure RowFormat (α : Type) where
  size : Nat
  read : Read α
  encode : α → Bytes

namespace RowFormat

def index : RowFormat UInt16 where
  size := 2
  read := Read.u2
  encode := u2

def lineNumber : RowFormat LineNumber where
  size := 4
  read := return ⟨← Read.u2, ← Read.u2⟩
  encode row := u2 row.startPc ++ u2 row.line

def localVariable : RowFormat LocalVariable where
  size := 10
  read := return ⟨← Read.u2, ← Read.u2, ← Read.u2, ← Read.u2, ← Read.u2⟩
  encode row := u2 row.startPc ++ u2 row.length ++ u2 row.nameIndex ++ u2 row.descriptorIndex ++
    u2 row.slot

def innerClass : RowFormat InnerClass where
  size := 8
  read := return ⟨← Read.u2, ← Read.u2, ← Read.u2, ← Read.u2⟩
  encode row := u2 row.inner ++ u2 row.outer ++ u2 row.name ++ u2 row.access

def handler : RowFormat ExceptionHandler where
  size := 8
  read := return ⟨← Read.u2, ← Read.u2, ← Read.u2, ← Read.u2⟩
  encode row := u2 row.startPc ++ u2 row.stopPc ++ u2 row.handlerPc ++ u2 row.catchType

end RowFormat

def BootstrapMethod.encode (m : BootstrapMethod) : Bytes :=
  u2 m.reference ++ encodeTable u2 m.arguments

/-- The payload of a `Code` attribute. The instructions are encoded where no code is given. -/
def Code.encode (c : Code) : Result Bytes := do
  let code ← if c.code = [] then Bytecode.encode c.instructions else pure c.code
  return u2 c.maxStack ++ u2 c.maxLocals ++ u4 (UInt32.ofNat code.length) ++ code ++
    encodeTable RowFormat.handler.encode c.handlers ++
    encodeTable Attribute.encode c.attributes

/-! ## Parsing -/

namespace Payload

def checkName (p : Pool) (a : Attribute) (want : Bytes) : Result Unit := do
  let got ← a.name p
  ensure (got = want) (.invalidData .decode [text "attributes", got]
    (text "attribute " ++ Text.quoted got ++ text " cannot be parsed as " ++ want))

def checkSize (name : Bytes) (want got : Nat) : Result Unit :=
  ensure (got = want) (.dataSize .decode name want got)

def within {α : Type} (name : Bytes) (size : Nat) (step : Read α) : Read α :=
  Read.mapError (fun _ e => .causedBy {
    phase := .decode, kind := .dataSize, path := [text "attributes", name]
    detail := text "incorrect data size for " ++ name ++ text ": payload of " ++ Text.ofNat size ++
      text " bytes is too short" } e) step

def finish (name : Bytes) (size : Nat) : Read Unit := do
  let used ← Read.position
  ensure (used = size) (.dataSize .decode name used size)

def rowCount (info : Bytes) : Nat :=
  match Read.runOn Read.u2 info with
  | .ok count => count.toNat
  | .error _ => 0

def rows {α : Type} (format : RowFormat α) (name : Bytes) (p : Pool) (a : Attribute) :
    Result (List α) := do
  checkName p a name
  let count := rowCount a.info
  checkSize name (2 + format.size * count) a.info.length
  Read.runOn (do
    let _ ← within name a.info.length Read.u2
    Read.times (within name a.info.length format.read) count) a.info

def lineNumbers : Pool → Attribute → Result (List LineNumber) :=
  rows .lineNumber AttributeName.lineNumberTable

def localVariables : Pool → Attribute → Result (List LocalVariable) :=
  rows .localVariable AttributeName.localVariableTable

def exceptions : Pool → Attribute → Result (List UInt16) := rows .index AttributeName.exceptions

def innerClasses : Pool → Attribute → Result (List InnerClass) :=
  rows .innerClass AttributeName.innerClasses

def index (name : Bytes) (p : Pool) (a : Attribute) : Result UInt16 := do
  checkName p a name
  checkSize name 2 a.info.length
  Read.runOn (within name a.info.length Read.u2) a.info

def marker (name : Bytes) (p : Pool) (a : Attribute) : Result Unit := do
  checkName p a name
  checkSize name 0 a.info.length

def readBootstrapMethod (size : Nat) : Read BootstrapMethod := do
  let word := within AttributeName.bootstrapMethods size Read.u2
  let reference ← word
  let argumentCount ← word
  let arguments ← Read.times word argumentCount.toNat
  return { reference, arguments }

def readBootstrapMethods (size : Nat) : Read (List BootstrapMethod) := do
  let count ← within AttributeName.bootstrapMethods size Read.u2
  let methods ← Read.times (readBootstrapMethod size) count.toNat
  finish AttributeName.bootstrapMethods size
  return methods

def bootstrapMethods (p : Pool) (a : Attribute) : Result (List BootstrapMethod) := do
  checkName p a AttributeName.bootstrapMethods
  Read.runOn (readBootstrapMethods a.info.length) a.info

def readCode (info : Bytes) : Read Code := do
  let name := AttributeName.code
  let size := info.length
  let maxStack ← within name size Read.u2
  let maxLocals ← within name size Read.u2
  let length := (← within name size Read.u4).toNat
  let start ← Read.position
  ensure (0 < length ∧ length < 65536) (.invalidData .decode [text "attributes", name]
    (text "code length " ++ Text.ofNat length ++ text " out of range"))
  ensure (length ≤ size - start)
    (.dataSize .decode (text "Code array") length (size - start : Nat))
  let instructions ← Bytecode.decodeFrom length
  let count ← within name size Read.u2
  let handlers ← Read.times (within name size RowFormat.handler.read) count.toNat
  let attributes ← ClassFile.readAttributes (text "code attributes")
  finish name size
  return {
    maxStack, maxLocals, code := (info.drop start).take length, instructions, handlers
    attributes }

def code (p : Pool) (a : Attribute) : Result Code := do
  checkName p a AttributeName.code
  Read.runOn (readCode a.info) a.info

end Payload
end ClassHeader
