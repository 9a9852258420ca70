import ClassHeader.Bytecode.Instruction
import ClassHeader.ClassFile.Payload
import ClassHeader.Resolve.Ref

/-!
# Resolved classes

Classes with names and types in place of pool indices.
-/

namespace ClassHeader

structure ResolvedInstruction where
  instruction : Bytecode.Instruction
  ref : Option Ref

structure ResolvedHandler where
  startPc : UInt16
  stopPc : UInt16
  handlerPc : UInt16
  /-- Empty for handlers that catch everything. -/
  catchType : Bytes

/-- An instruction shows what it refers to, drawn by `paint`, in place of a pool index. -/
def ResolvedInstruction.painted (paint : Bytes → Bytes) (i : ResolvedInstruction) : Bytes :=
  Text.padLeft 4 (Text.ofNat i.instruction.offset.toNat) ++ text ": " ++
    match i.ref with
    | some ref => i.instruction.opcode.name ++ text " " ++ paint ref.shown
    | none => i.instruction.line

def ResolvedInstruction.shown (i : ResolvedInstruction) : Bytes := i.painted id

def ResolvedHandler.shown (h : ResolvedHandler) : Bytes :=
  text "try [" ++ Text.ofNat h.startPc.toNat ++ text ", " ++ Text.ofNat h.stopPc.toNat ++
    text ") catch " ++ (if h.catchType = [] then text "any" else h.catchType) ++ text " -> " ++
    Text.ofNat h.handlerPc.toNat

structure ResolvedVariable where
  name : Bytes
  type : FieldType
  startPc : UInt16
  length : UInt16
  slot : UInt16

structure ResolvedInnerClass where
  inner : Bytes
  outer : Bytes
  name : Bytes
  access : AccessFlags

structure ResolvedBootstrap where
  kind : UInt8
  memberKind : Tag
  member : Pool.Member
  arguments : List Ref

structure CodeBody (α : Type) where
  maxStack : UInt16
  maxLocals : UInt16
  instructions : List ResolvedInstruction
  handlers : List ResolvedHandler
  attributes : List α

inductive ResolvedAttribute where
  | code (body : CodeBody ResolvedAttribute)
  | lineNumbers (rows : List LineNumber)
  | sourceFile (name : Bytes)
  | constantValue (value : Literal)
  | localVariables (rows : List ResolvedVariable)
  | exceptions (classes : List Bytes)
  | signature (value : Bytes)
  | innerClasses (rows : List ResolvedInnerClass)
  | bootstrapMethods (rows : List ResolvedBootstrap)
  | deprecated
  | synthetic

abbrev ResolvedCode := CodeBody ResolvedAttribute

def ResolvedAttribute.name : ResolvedAttribute → Bytes
  | .code _ => AttributeName.code
  | .lineNumbers _ => AttributeName.lineNumberTable
  | .sourceFile _ => AttributeName.sourceFile
  | .constantValue _ => AttributeName.constantValue
  | .localVariables _ => AttributeName.localVariableTable
  | .exceptions _ => AttributeName.exceptions
  | .signature _ => AttributeName.signature
  | .innerClasses _ => AttributeName.innerClasses
  | .bootstrapMethods _ => AttributeName.bootstrapMethods
  | .deprecated => AttributeName.deprecated
  | .synthetic => AttributeName.synthetic

structure ResolvedField where
  name : Bytes
  type : FieldType
  access : AccessFlags
  attributes : List ResolvedAttribute

structure ResolvedMethod where
  name : Bytes
  type : MethodType
  access : AccessFlags
  attributes : List ResolvedAttribute

structure ResolvedClass where
  name : Bytes
  /-- Empty for the root class. -/
  superName : Bytes
  sourceFile : Bytes
  interfaces : List Bytes
  fields : List ResolvedField
  methods : List ResolvedMethod
  attributes : List ResolvedAttribute
  access : AccessFlags
  major : UInt16
  minor : UInt16

def ResolvedMethod.code? (m : ResolvedMethod) : Option ResolvedCode :=
  m.attributes.findSome? fun
    | .code body => some body
    | _ => none

def ResolvedField.constant? (f : ResolvedField) : Option Literal :=
  f.attributes.findSome? fun
    | .constantValue value => some value
    | _ => none

/-! ## Listings

A readable account of a resolved class: its header, its fields with their
constants, and its methods with their instructions if wanted. Names and types are
drawn by a function of the caller, which leaves plain listings as they are. -/

namespace Listing

def line (parts : List Bytes) : Bytes :=
  (text " ").intercalate (parts.filter (· ≠ [])) ++ text "\n"

def header (paint : Bytes → Bytes) (c : ResolvedClass) : Bytes :=
  let kind := if c.access.has AccessFlags.isInterface then text "interface" else text "class"
  let version := text "version " ++ Text.ofNat c.major.toNat ++ text "." ++
    Text.ofNat c.minor.toNat ++
    if c.sourceFile = [] then [] else text ", source " ++ c.sourceFile
  line [kind, paint c.name, c.access.format .type] ++ line [text " ", version] ++
    (if c.superName = [] then [] else line [text "  extends", paint c.superName]) ++
    c.interfaces.flatMap fun i => line [text "  implements", paint i]

def fieldLine (paint : Bytes → Bytes) (f : ResolvedField) : Bytes :=
  let value := match f.constant? with
    | some value => text "= " ++ value.shown
    | none => []
  line [text " ", f.access.format .field, paint f.type.descriptor, paint f.name, value]

def codeLines (paint : Bytes → Bytes) (c : ResolvedCode) : Bytes :=
  c.instructions.flatMap (fun i => line [text "    " ++ i.painted paint]) ++
    c.handlers.flatMap fun h => line [text "    " ++ h.shown]

def methodLines (paint : Bytes → Bytes) (disassemble : Bool) (m : ResolvedMethod) : Bytes :=
  line [text " ", m.access.format .method, paint m.name ++ paint m.type.descriptor] ++
    match m.code? with
    | some code => if disassemble then codeLines paint code else []
    | none => []

def count (what : String) (n : Nat) : Bytes :=
  line [text what ++ text " (" ++ Text.ofNat n ++ text ")"]

end Listing

def ResolvedClass.paintedListing (paint : Bytes → Bytes) (c : ResolvedClass)
    (disassemble : Bool) : Bytes :=
  Listing.header paint c ++
    text "\n" ++ Listing.count "fields" c.fields.length ++
    c.fields.flatMap (Listing.fieldLine paint) ++
    text "\n" ++ Listing.count "methods" c.methods.length ++
    c.methods.flatMap (Listing.methodLines paint disassemble)

def ResolvedClass.listing (c : ResolvedClass) (disassemble : Bool) : Bytes :=
  c.paintedListing id disassemble

end ClassHeader
