import ClassHeader.ClassFile.Pool
import ClassHeader.Decimal
import ClassHeader.Descriptor

/-!
# References

What a constant stands for once all its indices are followed, and how it is
shown beside an instruction.
-/

namespace ClassHeader

/-- A constant value. Floating-point values are kept as their bits. -/
inductive Literal where
  | integer (value : Int32)
  | float (bits : UInt32)
  | long (value : Int64)
  | double (bits : UInt64)
  | string (value : Bytes)
  deriving DecidableEq, Repr

namespace Literal

def tag : Literal → Tag
  | .integer _ => .integer
  | .float _ => .float
  | .long _ => .long
  | .double _ => .double
  | .string _ => .string

def words : Decimal.Words := ⟨text "NaN", text "+Inf", text "-Inf"⟩

def shown : Literal → Bytes
  | .integer value => Text.ofInt value.toInt
  | .float bits => Decimal.single.render words bits.toNat
  | .long value => Text.ofInt value.toInt
  | .double bits => Decimal.double.render words bits.toNat
  | .string value => Text.quoted value

end Literal

inductive Ref where
  | type (name : Bytes) (type : FieldType)
  | member (kind : Tag) (member : Pool.Member)
  | literal (value : Literal)
  | methodType (type : MethodType)
  | methodHandle (kind : UInt8) (memberKind : Tag) (member : Pool.Member)
  | dynamic (kind : Tag) (bootstrap : UInt16) (name descriptor : Bytes)
  | named (kind : Tag) (name : Bytes)
  deriving DecidableEq, Repr

namespace Ref

def handleKind (kind : UInt8) : Bytes :=
  match ["getField", "getStatic", "putField", "putStatic", "invokeVirtual", "invokeStatic",
    "invokeSpecial", "newInvokeSpecial", "invokeInterface"][kind.toNat - 1]? with
  | some name => if kind = 0 then [] else text name
  | none => []

def memberText (kind : Tag) (m : Pool.Member) : Bytes :=
  m.owner ++ text "." ++ m.name ++
    (if kind = .fieldRef then text ":" else []) ++ m.descriptor

def shown : Ref → Bytes
  | .type name _ => name
  | .member kind m => memberText kind m
  | .literal value => value.shown
  | .methodType t => t.descriptor
  | .methodHandle kind memberKind m =>
    handleKind kind ++ text " " ++ memberText memberKind m
  | .dynamic _ bootstrap name descriptor =>
    text "#" ++ Text.ofNat bootstrap.toNat ++ text ":" ++ name ++
      text ":" ++ descriptor
  | .named _ name => name

def className? : Ref → Option Bytes
  | .type name _ => some name
  | .member _ m | .methodHandle _ _ m => some m.owner
  | _ => none

end Ref

/-! ## Following indices -/

namespace Constant

def literal? (p : Pool) : Constant → Result (Option Literal)
  | .integer value => return some (.integer value)
  | .float bits => return some (.float bits)
  | .long high low => return some (.long (joinWords high low).toInt64)
  | .double high low => return some (.double (joinWords high low))
  | .string i => return some (.string (← p.utf8 i))
  | _ => return none

end Constant

namespace Pool

/-- What the constant at an index stands for. Names and descriptors stand for nothing. -/
def resolve (p : Pool) (i : UInt16) : Result Ref := do
  let c ← p.get i
  if let some value ← c.literal? p then
    return .literal value
  match c with
  | .classRef nameIndex =>
    let name ← p.utf8 nameIndex
    return .type name (← FieldType.ofClassName name)
  | .fieldRef _ _ | .methodRef _ _ | .interfaceMethodRef _ _ =>
    return .member c.tag (← p.member i)
  | .methodType descriptorIndex =>
    return .methodType (← MethodType.parse (← p.utf8 descriptorIndex))
  | .methodHandle kind reference =>
    let target ← p.get reference
    return .methodHandle kind target.tag (← p.member reference)
  | .dynamic bootstrap nat | .invokeDynamic bootstrap nat =>
    let (name, descriptor) ← p.nameAndType nat
    return .dynamic c.tag bootstrap name descriptor
  | .moduleRef nameIndex | .packageRef nameIndex => return .named c.tag (← p.utf8 nameIndex)
  | _ =>
    throw (.typeMismatch .resolve [text "constant_pool"] (text "loadable constant") c.tag.name)

end Pool
end ClassHeader
