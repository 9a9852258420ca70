import ClassHeader.Cpp.Name
import ClassHeader.Descriptor

/-!
# C++ types

A type is a name with flags for constness, indirection and static storage.
Classes are used through pointers, arrays through pointers to an array template.
-/

namespace ClassHeader.Cpp

abbrev TypeFlags := UInt8

namespace TypeFlags

abbrev const : TypeFlags := 1
abbrev pointer : TypeFlags := 2
abbrev constPointer : TypeFlags := 4
abbrev reference : TypeFlags := 8
abbrev static : TypeFlags := 16

def has (f flag : TypeFlags) : Bool := f &&& flag ≠ 0

def all : List (TypeFlags × String) :=
  [(const, "const"), (pointer, "pointer"), (constPointer, "const_pointer"),
    (reference, "reference"), (static, "static")]

def format (f : TypeFlags) : Bytes :=
  (text "|").intercalate (all.filterMap fun (flag, name) =>
    if f.has flag then some (text name) else none)

/-- At most one kind of indirection, and no unknown flags. -/
def validate (f : TypeFlags) : Result Unit := do
  let bad := fun detail => Error.invalidConfig .codegen (text "flags") (text detail)
  ensure (¬(f.has pointer ∧ f.has constPointer)) (bad "type is both pointer and const pointer")
  ensure (¬(f.has reference ∧ (f.has pointer ∨ f.has constPointer)))
    (bad "type is both reference and pointer")
  ensure (f < 32) (bad "unknown type flag bits")

end TypeFlags

structure TypeRef where
  name : Bytes
  flags : TypeFlags
  deriving DecidableEq, Repr

namespace TypeRef

def make (name : Bytes) (flags : TypeFlags) : Result TypeRef := do
  ensure (name ≠ []) (.invalidConfig .codegen (text "type") (text "empty type name"))
  flags.validate
  return { name, flags }

def addFlags (t : TypeRef) (flags : TypeFlags) : Result TypeRef := make t.name (t.flags ||| flags)

def written (t : TypeRef) : Bytes :=
  (if t.flags.has TypeFlags.static then text "static " else []) ++
    (if t.flags.has TypeFlags.const then text "const " else []) ++ t.name ++
    if t.flags.has TypeFlags.pointer then text "*"
    else if t.flags.has TypeFlags.constPointer then text "* const"
    else if t.flags.has TypeFlags.reference then text "&"
    else []

def primitiveName : Primitive → Bytes
  | .byte => text "int8_t"
  | .char => text "char16_t"
  | .double => text "double"
  | .float => text "float"
  | .int => text "int32_t"
  | .long => text "int64_t"
  | .short => text "int16_t"
  | .boolean => text "bool"

/-- The C++ type of a field. A blank keeps a qualified name apart from the bracket before it. -/
def ofField : FieldType → Result TypeRef
  | .primitive type => make (primitiveName type) 0
  | .object className => make (qualifiedName className) TypeFlags.pointer
  | .array component => do
    let element := (← ofField component).written
    let space := if element.head? = some Ascii.colon then text " " else []
    make (text "::jaot::JArray<" ++ space ++ element ++ text ">") TypeFlags.pointer

def ofDescriptor : Option FieldType → Result TypeRef
  | none => throw (.nilPointer .codegen [] (text "descriptor"))
  | some type => ofField type

@[simp] theorem ofDescriptor_some (type : FieldType) : ofDescriptor (some type) = ofField type :=
  rfl

def ofResult : Option FieldType → Result TypeRef
  | none => make (text "void") 0
  | some type => ofField type

end TypeRef
end ClassHeader.Cpp
