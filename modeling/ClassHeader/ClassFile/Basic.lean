import ClassHeader.Binary.Reader
import ClassHeader.ClassFile.Pool

/-!
# Class files

The structure of a class file as it is stored: all names are pool indices and
the payloads of attributes are bytes.
-/

namespace ClassHeader

/-! ## Access flags

One word of flags, whose bits have different names for classes, fields and methods. -/

abbrev AccessFlags := UInt16

namespace AccessFlags

abbrev isPublic : AccessFlags := 0x0001
abbrev isPrivate : AccessFlags := 0x0002
abbrev isStatic : AccessFlags := 0x0008
abbrev isFinal : AccessFlags := 0x0010
abbrev isSuper : AccessFlags := 0x0020
abbrev isInterface : AccessFlags := 0x0200
abbrev isAbstract : AccessFlags := 0x0400

def has (flags wanted : AccessFlags) : Bool := flags &&& wanted = wanted

inductive Target where
  | type
  | field
  | method
  deriving DecidableEq, Repr

def names : Target → List (String × AccessFlags)
  | .type =>
    [("public", 0x0001), ("final", 0x0010), ("super", 0x0020), ("interface", 0x0200),
      ("abstract", 0x0400), ("synthetic", 0x1000), ("annotation", 0x2000), ("enum", 0x4000),
      ("module", 0x8000)]
  | .field =>
    [("public", 0x0001), ("private", 0x0002), ("protected", 0x0004), ("static", 0x0008),
      ("final", 0x0010), ("volatile", 0x0040), ("transient", 0x0080), ("synthetic", 0x1000),
      ("enum", 0x4000)]
  | .method =>
    [("public", 0x0001), ("private", 0x0002), ("protected", 0x0004), ("static", 0x0008),
      ("final", 0x0010), ("synchronized", 0x0020), ("bridge", 0x0040), ("varargs", 0x0080),
      ("native", 0x0100), ("abstract", 0x0400), ("strict", 0x0800), ("synthetic", 0x1000)]

def words (flags : AccessFlags) (target : Target) : List Bytes :=
  (names target).filterMap fun (name, flag) => if flags.has flag then some (text name) else none

def format (flags : AccessFlags) (target : Target) : Bytes :=
  (text " ").intercalate (flags.words target)

end AccessFlags

/-! ## Stored classes -/

structure Attribute where
  nameIndex : UInt16
  info : Bytes
  deriving DecidableEq, Repr

structure MemberInfo where
  access : AccessFlags
  nameIndex : UInt16
  descriptorIndex : UInt16
  attributes : List Attribute
  deriving DecidableEq, Repr

structure ClassFile where
  magic : UInt32
  minor : UInt16
  major : UInt16
  pool : Pool
  access : AccessFlags
  thisClass : UInt16
  /-- Zero for the class that has no superclass. -/
  superClass : UInt16
  interfaces : List UInt16
  fields : List MemberInfo
  methods : List MemberInfo
  attributes : List Attribute
  deriving DecidableEq, Repr

def classMagic : UInt32 := 0xCAFEBABE

def maxMajorVersion : UInt16 := 65

def Attribute.name (a : Attribute) (p : Pool) : Result Bytes := p.utf8 a.nameIndex
def MemberInfo.name (m : MemberInfo) (p : Pool) : Result Bytes := p.utf8 m.nameIndex
def MemberInfo.descriptor (m : MemberInfo) (p : Pool) : Result Bytes := p.utf8 m.descriptorIndex

/-- The first attribute of a name; attributes without a readable name are passed over. -/
def findAttribute? (p : Pool) (name : Bytes) (attributes : List Attribute) : Option Attribute :=
  attributes.find? fun a => (a.name p).toOption = some name

namespace ClassFile

def hasSuper (c : ClassFile) : Bool := c.superClass ≠ 0

def name (c : ClassFile) : Result Bytes := c.pool.className c.thisClass

/-- The name of the superclass, empty if there is none. -/
def superName (c : ClassFile) : Result Bytes :=
  if c.hasSuper then c.pool.className c.superClass else return []

def interfaceNames (c : ClassFile) : Result (List Bytes) :=
  c.interfaces.mapM c.pool.className

end ClassFile

/-! ## Encoding

Counts and lengths are written in the width of their field, whatever they are. -/

open Binary

def encodeTable {α : Type} (encode : α → Bytes) (elements : List α) : Bytes :=
  u2 (UInt16.ofNat elements.length) ++ elements.flatMap encode

def Constant.payload : Constant → Bytes
  | .utf8 value => u2 (UInt16.ofNat value.length) ++ value
  | .integer value => u4 value.toUInt32
  | .float bits => u4 bits
  | .long high low | .double high low => u4 high ++ u4 low
  | .classRef i | .string i | .methodType i | .moduleRef i | .packageRef i => u2 i
  | .fieldRef a b | .methodRef a b | .interfaceMethodRef a b | .nameAndType a b
  | .dynamic a b | .invokeDynamic a b => u2 a ++ u2 b
  | .methodHandle kind reference => u1 kind ++ u2 reference

def Constant.encode (c : Constant) : Bytes := u1 c.tag.code ++ c.payload

def Pool.encode (p : Pool) : Bytes :=
  u2 (UInt16.ofNat p.count) ++ (p.entries.drop 1).flatMap fun entry =>
    match entry with
    | some c => c.encode
    | none => []

def Attribute.encode (a : Attribute) : Bytes :=
  u2 a.nameIndex ++ u4 (UInt32.ofNat a.info.length) ++ a.info

def MemberInfo.encode (m : MemberInfo) : Bytes :=
  u2 m.access ++ u2 m.nameIndex ++ u2 m.descriptorIndex ++
    encodeTable Attribute.encode m.attributes

/-- The bytes of a class file; a magic number that was never set is written as the usual one. -/
def ClassFile.encode (c : ClassFile) : Bytes :=
  u4 (if c.magic = 0 then classMagic else c.magic) ++ u2 c.minor ++ u2 c.major ++
    c.pool.encode ++ u2 c.access ++ u2 c.thisClass ++ u2 c.superClass ++
    encodeTable u2 c.interfaces ++ encodeTable MemberInfo.encode c.fields ++
    encodeTable MemberInfo.encode c.methods ++ encodeTable Attribute.encode c.attributes

end ClassHeader
