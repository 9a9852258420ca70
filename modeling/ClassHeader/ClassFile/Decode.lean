import ClassHeader.Binary.Reader
import ClassHeader.ClassFile.Basic

/-!
# Decoding class files

Decoding accepts a class file that is complete and has nothing behind it. A read
that fails names the part of the file it was meant for and the place it reached.
-/

namespace ClassHeader

open Binary

namespace ClassFile

def invalid (detail : Bytes) : Error := .invalidData .decode [] detail

def readPart {α : Type} (part : Bytes) (step : Read α) : Read α :=
  Read.mapError (fun position e => .causedBy {
    phase := .decode, kind := .invalidData
    detail := text "truncated or malformed " ++ part } (.parse part position e)) step

def readTable {α : Type} (part : Bytes) (element : Read α) : Read (List α) := do
  let count ← readPart part Read.u2
  Read.times element count.toNat

/-! ## Constants -/

def poolPart : Bytes := text "constant pool"

def readPayload (position : Nat) (tag : Tag) : Read Constant := do
  let index := readPart poolPart Read.u2
  let word := readPart poolPart Read.u4
  match tag with
  | .utf8 =>
    let length ← index
    return .utf8 (← readPart poolPart (Read.take length.toNat))
  | .integer => return .integer (← word).toInt32
  | .float => return .float (← word)
  | .long => return .long (← word) (← word)
  | .double => return .double (← word) (← word)
  | .classRef => return .classRef (← index)
  | .string => return .string (← index)
  | .methodType => return .methodType (← index)
  | .moduleRef => return .moduleRef (← index)
  | .packageRef => return .packageRef (← index)
  | .fieldRef => return .fieldRef (← index) (← index)
  | .methodRef => return .methodRef (← index) (← index)
  | .interfaceMethodRef => return .interfaceMethodRef (← index) (← index)
  | .nameAndType => return .nameAndType (← index) (← index)
  | .dynamic => return .dynamic (← index) (← index)
  | .invokeDynamic => return .invokeDynamic (← index) (← index)
  | .methodHandle =>
    let kind ← readPart poolPart Read.u1
    ensure (Constant.isReferenceKind kind)
      (invalid (text "method handle at position " ++ Text.ofNat position ++
        text ": invalid reference kind " ++ Text.ofNat kind.toNat))
    return .methodHandle kind (← index)

def readConstant : Read Constant := do
  let position ← Read.position
  let code ← readPart poolPart Read.u1
  match Tag.ofCode? code with
  | some tag => readPayload position tag
  | none =>
    throw (.fault {
      phase := .decode, kind := .unknownTag
      detail := text "unknown constant pool tag " ++ Text.ofNat code.toNat ++
        text " at position " ++ Text.ofNat position })

def readEntries (index : Nat) : (left : Nat) → Read (List (Option Constant))
  | 0 => return []
  | left + 1 => do
    let position ← Read.position
    let c ← readConstant
    if c.isWide then
      match left with
      | 0 =>
        throw (.invalidData .decode [text "constant_pool", text "#" ++ Text.ofNat index]
          (c.tag.name ++ text " entry at position " ++ Text.ofNat position ++
            text " has no second slot"))
      | left + 1 => return some c :: none :: (← readEntries (index + 2) left)
    else return some c :: (← readEntries (index + 1) left)

def readPool : Read Pool := do
  let count ← readPart (text "constant pool count") Read.u2
  ensure (count ≠ 0) (invalid (text "constant pool count must be at least 1"))
  let entries ← readEntries 1 (count.toNat - 1)
  return ⟨none :: entries⟩

/-! ## Members and attributes -/

def readAttribute (part : Bytes) : Read Attribute := do
  let nameIndex ← readPart part Read.u2
  let length ← readPart part Read.u4
  let info ← readPart part (Read.take length.toNat)
  return { nameIndex, info }

def readAttributes (part : Bytes) : Read (List Attribute) := readTable part (readAttribute part)

def readMember (part : Bytes) : Read MemberInfo := do
  let access ← readPart part Read.u2
  let nameIndex ← readPart part Read.u2
  let descriptorIndex ← readPart part Read.u2
  let attributes ← readAttributes part
  return { access, nameIndex, descriptorIndex, attributes }

def readEnd : Read Unit := fun r =>
  match Read.byte r with
  | .error _ r => .ok () r
  | .ok _ r =>
    .error (invalid (text "trailing data after class attributes at position " ++
      Text.ofNat (r.position - 1))) r

def read : Read ClassFile := do
  let header := text "header"
  let magic ← readPart header Read.u4
  ensure (magic = classMagic) (.fault {
    phase := .decode, kind := .notClassFile
    detail := text "not a class file: magic 0x" ++ Text.asciiUpper (Text.hex 8 magic.toNat) })
  let minor ← readPart header Read.u2
  let major ← readPart header Read.u2
  ensure (major ≤ maxMajorVersion)
    (.unsupported .decode (text "unsupported class file version " ++ Text.ofNat major.toNat ++
      text "." ++ Text.ofNat minor.toNat ++ text " (newest supported is " ++
      Text.ofNat maxMajorVersion.toNat ++ text ")"))
  let pool ← readPool
  let access ← readPart (text "access flags") Read.u2
  let thisClass ← readPart (text "this class") Read.u2
  let superClass ← readPart (text "super class") Read.u2
  let interfaces ← readTable (text "interfaces") (readPart (text "interfaces") Read.u2)
  let fields ← readTable (text "fields") (readMember (text "fields"))
  let methods ← readTable (text "methods") (readMember (text "methods"))
  let attributes ← readAttributes (text "class attributes")
  readEnd
  return {
    magic, minor, major, pool, access, thisClass, superClass, interfaces, fields, methods
    attributes }

def decodeFrom (source : Source) (data : Bytes) : Result ClassFile :=
  Read.runOn read data source

def decode (data : Bytes) : Result ClassFile := decodeFrom .memory data

end ClassFile
end ClassHeader
