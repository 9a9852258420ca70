import ClassHeader.ClassFile.Decode

/-!
# Validating class files

A class file is valid when every index in it refers to a constant of the right
kind. Validation reports the first reference that does not, the pool before the
class, the class before its members.
-/

namespace ClassHeader

namespace Pool

def badReference (place : Bytes) (cause : Error) : Error :=
  .causedBy {
    phase := .decode, kind := .invalidData, path := [place]
    detail := text "invalid constant pool reference" } cause

/-- Any fault of a lookup is reported for the place that refers to it. -/
def checkedAt {α : Type} (place : Bytes) (lookup : Result α) : Result Unit :=
  match lookup with
  | .ok _ => return ()
  | .error e => throw (badReference place e)

def expectTag (p : Pool) (place : Bytes) (i : UInt16) (want : List Tag) : Result Unit :=
  match p.get i with
  | .error e => throw (badReference place e)
  | .ok c =>
    if c.tag ∈ want then return ()
    else
      throw (.fault {
        phase := .decode, kind := .typeMismatch, path := [place]
        detail := text "#" ++ Text.ofNat i.toNat ++ text " is " ++ c.tag.name ++ text ", want " ++
          match want with
          | tag :: _ => tag.name
          | [] => [] })

end Pool

def Constant.references : Constant → List (UInt16 × List Tag)
  | .classRef i | .string i | .methodType i | .moduleRef i | .packageRef i => [(i, [.utf8])]
  | .nameAndType name descriptor => [(name, [.utf8]), (descriptor, [.utf8])]
  | .fieldRef owner nat | .methodRef owner nat | .interfaceMethodRef owner nat =>
    [(owner, [.classRef]), (nat, [.nameAndType])]
  | .dynamic _ nat | .invokeDynamic _ nat => [(nat, [.nameAndType])]
  | .methodHandle kind reference => [(reference, referenceTags kind)]
  | .utf8 _ | .integer _ | .float _ | .long _ _ | .double _ _ => []

namespace ClassFile

def element (name : Bytes) (i : Nat) : Bytes := name ++ text "[" ++ Text.ofNat i ++ text "]"

def validatePool (p : Pool) : Result Unit :=
  p.occupied.forM fun (i, c) =>
    c.references.forM fun (index, want) =>
      p.expectTag (element (text "constant_pool") i.toNat) index want

def validateIndices (c : ClassFile) : Result Unit := do
  Pool.checkedAt (text "this_class") (c.pool.className c.thisClass)
  if c.hasSuper then
    Pool.checkedAt (text "super_class") (c.pool.className c.superClass)
  c.interfaces.zipIdx.forM fun (index, i) =>
    Pool.checkedAt (element (text "interfaces") i) (c.pool.className index)

def validateAttributes (p : Pool) (place : Bytes) (attributes : List Attribute) : Result Unit :=
  attributes.zipIdx.forM fun (a, i) =>
    Pool.checkedAt (element (place ++ text ".attributes") i) (a.name p)

def validateMembers (p : Pool) (part : Bytes) (members : List MemberInfo) : Result Unit :=
  members.zipIdx.forM fun (m, i) => do
    let place := element part i
    Pool.checkedAt (place ++ text ".name") (m.name p)
    Pool.checkedAt (place ++ text ".descriptor") (m.descriptor p)
    validateAttributes p place m.attributes

def validate (c : ClassFile) : Result Unit := do
  validatePool c.pool
  validateIndices c
  validateMembers c.pool (text "fields") c.fields
  validateMembers c.pool (text "methods") c.methods
  validateAttributes c.pool (text "attributes") c.attributes

def decodeValid (data : Bytes) : Result ClassFile := do
  let c ← decode data
  c.validate
  return c

end ClassFile
end ClassHeader
