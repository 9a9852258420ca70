import ClassHeader.ClassFile.Constant
import ClassHeader.Error

/-!
# Constant pools

A pool numbers its slots from zero. Slot zero and the slot behind each wide
constant are empty; looking them up is a fault, as is an index behind the end.
-/

namespace ClassHeader

structure Pool where
  entries : List (Option Constant)
  deriving DecidableEq, Repr

namespace Pool

def empty : Pool := ⟨[none]⟩

/-- The number of slots, counting slot zero even where nothing is stored. -/
def count (p : Pool) : Nat := max 1 p.entries.length

def place (i : UInt16) : List Bytes := [text "constant_pool", text "#" ++ Text.ofNat i.toNat]

def get (p : Pool) (i : UInt16) : Result Constant :=
  if i = 0 then throw (.nilPointer .resolve (place i) (text "constant pool slot 0"))
  else
    match p.entries[i.toNat]? with
    | none => throw (.outOfBounds .resolve (place i) i.toNat p.entries.length)
    | some none =>
      throw (.nilPointer .resolve (place i) (text "constant pool slot " ++ Text.ofNat i.toNat))
    | some (some c) => return c

def mismatch (i : UInt16) (want : Tag) (got : Constant) : Error :=
  .typeMismatch .resolve (place i) want.name got.tag.name

def utf8 (p : Pool) (i : UInt16) : Result Bytes := do
  match ← p.get i with
  | .utf8 value => return value
  | c => throw (mismatch i .utf8 c)

def className (p : Pool) (i : UInt16) : Result Bytes := do
  match ← p.get i with
  | .classRef name => p.utf8 name
  | c => throw (mismatch i .classRef c)

def nameAndType (p : Pool) (i : UInt16) : Result (Bytes × Bytes) := do
  match ← p.get i with
  | .nameAndType name descriptor => return (← p.utf8 name, ← p.utf8 descriptor)
  | c => throw (mismatch i .nameAndType c)

structure Member where
  owner : Bytes
  name : Bytes
  descriptor : Bytes
  deriving DecidableEq, Repr

def member (p : Pool) (i : UInt16) : Result Member := do
  let c ← p.get i
  match c.memberIndices? with
  | some (ownerIndex, natIndex) =>
    let owner ← p.className ownerIndex
    let (name, descriptor) ← p.nameAndType natIndex
    return { owner, name, descriptor }
  | none => throw (mismatch i .methodRef c)

def occupied (p : Pool) : List (UInt16 × Constant) :=
  (p.entries.zipIdx.drop 1).filterMap fun (entry, i) => entry.map fun c => (UInt16.ofNat i, c)

def find? (p : Pool) (entry : Option Constant) : Option UInt16 :=
  ((p.entries.zipIdx.drop 1).find? (·.1 = entry)).map fun found => UInt16.ofNat found.2

end Pool
end ClassHeader
