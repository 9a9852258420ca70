import ClassHeader.ClassFile.Payload

/-!
# Cross-checking a class file

A second reading of the same class file is compared with the decoded one, entry
by entry. The first disagreement, or the first entry that the second reading
cannot tell, is recorded and reported at its place; lists of the second reading
are read at the positions of ours.
-/

namespace ClassHeader.CrossCheck

structure MemberReading where
  name : Result Bytes
  descriptor : Result Bytes
  access : UInt16
  /-- Absent for members without code. -/
  codeLength : Option Nat

structure Reading where
  major : UInt16
  minor : UInt16
  access : UInt16
  thisName : Result Bytes
  /-- Absent when the class has no superclass. -/
  superName : Option (Result Bytes)
  interfaces : List (Result Bytes)
  fields : List MemberReading
  methods : List MemberReading

inductive Shown where
  | number (value : Int)
  | name (value : Bytes)
  deriving DecidableEq, Repr

def Shown.text : Shown → Bytes
  | .number value => Text.ofInt value
  | .name value => Text.quoted value

def codeLength? (p : Pool) (m : MemberInfo) : Option Nat := do
  let a ← findAttribute? p AttributeName.code m.attributes
  let c ← (Payload.code p a).toOption
  return c.code.length

/-- -1 stands for no code. -/
def lengthOf (length : Option Nat) : Int :=
  match length with
  | some n => n
  | none => -1

def valueOf (entry : Result Bytes) : Bytes := entry.toOption.getD []

def pastEnd (position length : Nat) : Error :=
  .plain (text "index out of range [" ++ Text.ofNat position ++ text "] with length " ++
    Text.ofNat length)

/-- Records the first disagreement and ignores later checks. -/
structure Comparison where
  className : Bytes
  error : Option Error := none

namespace Comparison

variable (x : Comparison)

def faultAt (path : List Bytes) (detail : Bytes) : Fault where
  phase := .decode
  kind := .invalidData
  className := x.className
  path := path
  detail := detail

def check (path : List Bytes) (ours theirs : Shown) : Comparison :=
  if x.error.isSome ∨ ours = theirs then x
  else
    let detail := text "decoded " ++ ours.text ++ text ", reference parser read " ++ theirs.text
    { x with error := some (.fault (x.faultAt path detail)) }

def checkRead (path : List Bytes) (entry : Result Bytes) : Comparison :=
  match x.error, entry with
  | none, .error e =>
    let fault := x.faultAt path (text "reference parser cannot read the entry")
    { x with error := some (.causedBy fault e) }
  | _, _ => x

def checkName (path : List Bytes) (ours : Bytes) (theirs : Result Bytes) : Comparison :=
  (x.checkRead path theirs).check path (.name ours) (.name (valueOf theirs))

def checkClass (c : ClassFile) (name superName : Bytes) (theirs : Reading) : Comparison :=
  let x := x.check [text "major_version"] (.number c.major.toNat) (.number theirs.major.toNat)
  let x := x.check [text "minor_version"] (.number c.minor.toNat) (.number theirs.minor.toNat)
  let x := x.check [text "access_flags"] (.number c.access.toNat) (.number theirs.access.toNat)
  let x := x.checkName [text "this_class"] name theirs.thisName
  x.checkName [text "super_class"] superName (theirs.superName.getD (pure []))

def checkMember (p : Pool) (path : List Bytes) (m : MemberInfo) (name descriptor : Bytes)
    (access : UInt16) : Comparison :=
  let x := x.checkRead path (m.name p)
  let x := x.check (path ++ [text "name"]) (.name (valueOf (m.name p))) (.name name)
  let x := x.checkRead path (m.descriptor p)
  let x := x.check (path ++ [text "descriptor"]) (.name (valueOf (m.descriptor p)))
    (.name descriptor)
  x.check (path ++ [text "access_flags"]) (.number m.access.toNat) (.number access.toNat)

def checkField (p : Pool) (path : List Bytes) (m : MemberInfo) (theirs : MemberReading) :
    Comparison :=
  let x := x.checkRead path theirs.name
  let x := x.checkRead path theirs.descriptor
  x.checkMember p path m (valueOf theirs.name) (valueOf theirs.descriptor) theirs.access

def checkMethod (p : Pool) (path : List Bytes) (m : MemberInfo) (theirs : MemberReading) :
    Comparison :=
  (x.checkField p path m theirs).check (path ++ [text "code_length"])
    (.number (lengthOf (codeLength? p m))) (.number (lengthOf theirs.codeLength))

/-- Goes on with our elements from a position, each next to the one of theirs at its position,
until a disagreement is recorded. -/
def checkFrom {α β : Type} (element : Comparison → List Bytes → α → β → Comparison) (part : Bytes)
    (theirs : List β) (x : Comparison) (i : Nat) : List α → Result Comparison
  | [] => return x
  | a :: ours =>
    if x.error.isSome then return x
    else match theirs[i]? with
      | some b => checkFrom element part theirs (element x [part, Text.ofNat i] a b) (i + 1) ours
      | none => throw (pastEnd i theirs.length)

def checkList {α β : Type} (part : Bytes)
    (element : Comparison → List Bytes → α → β → Comparison) (ours : List α) (theirs : List β) :
    Result Comparison :=
  checkFrom element part theirs
    (x.check [part] (.number ours.length) (.number theirs.length)) 0 ours

def outcome : Result Unit :=
  match x.error with
  | none => return ()
  | some e => throw e

end Comparison

/-- Compares a decoded class with what another parser made of the same data. Names that the
decoded class itself cannot tell are reported as they are. -/
def compare (reading : Result Reading) (c : Option ClassFile) : Result Unit := do
  match c with
  | none => throw (.nilPointer .decode [] (text "class"))
  | some c =>
    let name ← c.name
    let theirs ← reading.mapError fun e => .causedBy {
      phase := .decode, kind := .invalidData, className := name
      detail := text "reference parser rejected the class" } e
    let superName ← c.superName
    let interfaces ← c.interfaceNames
    let x := Comparison.checkClass { className := name } c name superName theirs
    let x ← x.checkList (text "interfaces") .checkName interfaces theirs.interfaces
    let x ← x.checkList (text "fields") (.checkField · c.pool) c.fields theirs.fields
    let x ← x.checkList (text "methods") (.checkMethod · c.pool) c.methods theirs.methods
    x.outcome

/-! ## A reading by decoding -/

def MemberReading.ofMember (p : Pool) (m : MemberInfo) : MemberReading where
  name := m.name p
  descriptor := m.descriptor p
  access := m.access
  codeLength := codeLength? p m

def Reading.ofClassFile (c : ClassFile) : Reading where
  major := c.major
  minor := c.minor
  access := c.access
  thisName := c.name
  superName := if c.hasSuper then some c.superName else none
  interfaces := c.interfaces.map c.pool.className
  fields := c.fields.map (.ofMember c.pool)
  methods := c.methods.map (.ofMember c.pool)

def Reading.ofData (data : Bytes) : Result Reading := do
  return .ofClassFile (← ClassFile.decode data)

end ClassHeader.CrossCheck
