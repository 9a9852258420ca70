import ClassHeader.Cpp.Node
import ClassHeader.Resolve.Class

/-!
# Headers

The header of a list of classes: every class that it mentions is declared first,
then the classes are defined in their order. Methods have bodies that return
zero, which the instructions of the method may precede as comments.
-/

namespace ClassHeader.Cpp

structure HeaderOptions where
  /-- The comment on top; a standard one when empty. -/
  comment : Bytes := []
  disassemble : Bool := false
  deriving DecidableEq, Repr

namespace Header

def defaultComment : Bytes := text "Generated by jaot. Do not edit."

def arrayTemplate : Bytes :=
  (text "\n").intercalate <| List.map text
    ["namespace jaot \x7b",
      "template <typename T>",
      "struct JArray \x7b",
      "    int32_t length;",
      "    T data[1];",
      "\x7d;",
      "\x7d // namespace jaot"]

def opening : List Node :=
  [.includeFile (text "cstdint") true, .includeFile (text "cmath") true, .verbatim arrayTemplate]

/-! ## Forward declarations -/

def mentions (c : ResolvedClass) : List Bytes :=
  c.superName :: c.interfaces ++ c.fields.filterMap (·.type.className?) ++
    c.methods.flatMap fun m => (m.type.args ++ m.type.result.toList).filterMap FieldType.className?

def declaredNames (order : List Bytes) (classes : List ResolvedClass) : List Bytes :=
  ((order ++ classes.flatMap mentions).filter (· ≠ [])).eraseDups

def declarations (names : List Bytes) : Result (List Node) :=
  (names.map fun name => (splitClassName name).1).eraseDups.mapM fun package =>
    Node.makeScope package <|
      (names.filter fun name => (splitClassName name).1 = package).map fun name =>
        some (.forward (mangle (splitClassName name).2))

/-! ## Fields -/

def fieldCandidate (name : Bytes) : Nat → Bytes
  | 0 => mangle name
  | 1 => escape name ++ text "_F"
  | n => escape name ++ text "_F" ++ Text.ofNat n

/-- The first candidate that is not taken. One more candidate than taken names is enough, since
all candidates differ. -/
def freshFieldName (taken : List Bytes) (name : Bytes) : Bytes :=
  (((List.range (taken.length + 1)).map (fieldCandidate name)).find? (· ∉ taken)).getD
    (mangle name)

def fieldNamesFrom (taken : List Bytes) : List ResolvedField → List Bytes
  | [] => []
  | f :: rest =>
    let name := freshFieldName taken f.name
    name :: fieldNamesFrom (name :: taken) rest

def fieldNames (c : ResolvedClass) : List Bytes :=
  fieldNamesFrom (c.methods.map fun m => mangle m.name) c.fields

/-- The value of a constant in a field of a type; integers also initialise the smaller types. -/
def constantOf (type : FieldType) : Literal → Value
  | .integer value =>
    match type with
    | .primitive .boolean => .bool (value ≠ 0)
    | .primitive .char => .char16 value.toUInt32.toUInt16
    | .primitive .byte => .int8 value.toInt8
    | .primitive .short => .int16 value.toInt16
    | _ => .int32 value
  | .float bits => .float bits
  | .long value => .int64 value
  | .double bits => .double bits
  | .string value => .string value

def stored (access : AccessFlags) (type : TypeRef) : Result TypeRef :=
  if access.has AccessFlags.isStatic then type.addFlags TypeFlags.static else return type

/-- A field; constants of static final fields are its initialiser, except that strings stand in a
comment. -/
def field (f : ResolvedField) (name : Bytes) : Result (List Node) := do
  let type ← stored f.access (← TypeRef.ofDescriptor f.type)
  let plain ← Node.makeField (some type) name none false
  let isConstant := f.access.has AccessFlags.isStatic && f.access.has AccessFlags.isFinal
  match f.constant?.filter fun _ => isConstant with
  | none => return [plain]
  | some (.string value) =>
    return [.comment (f.name ++ text " = " ++ Text.quoted value), plain]
  | some value =>
    let init ← Node.makeLiteral (constantOf f.type value)
    return [← Node.makeField (some type) name (some init) true]

/-! ## Methods -/

/-- Methods of equal keys would be one function. -/
def overloadKey (m : ResolvedMethod) : Bytes :=
  let descriptor := m.type.descriptor
  escape m.name ++ descriptor.takeWhile (· ≠ Ascii.closeParen) ++ [Ascii.closeParen]

def methodNamesFrom (earlier : List Bytes) : List ResolvedMethod → List Bytes
  | [] => []
  | m :: rest =>
    let key := overloadKey m
    -- Counts methods that were numbered themselves, too.
    let n := earlier.count key
    unreserved (escape m.name ++ if n = 0 then [] else text "_" ++ Text.ofNat n) ::
      methodNamesFrom (key :: earlier) rest

def methodNames (c : ResolvedClass) : List Bytes := methodNamesFrom [] c.methods

structure NamedSlot where
  slot : UInt16
  name : Bytes
  deriving DecidableEq, Repr

def numberedSlots (index : Nat) (slot : UInt16) : List FieldType → List NamedSlot
  | [] => []
  | arg :: rest =>
    { slot, name := text "arg" ++ Text.ofNat index } ::
      numberedSlots (index + 1) (slot + if arg.isWide then 2 else 1) rest

def renameSlot (slot : UInt16) (name : Bytes) : List NamedSlot → Option (List NamedSlot)
  | [] => none
  | p :: rest =>
    if p.slot = slot then some ({ p with name } :: rest)
    else (renameSlot slot name rest).map (p :: ·)

/-- Gives a parameter the name of a local variable that lives from the start on, unless another
parameter was given that name before. -/
def applyVariable (s : List NamedSlot × List Bytes) (v : ResolvedVariable) :
    List NamedSlot × List Bytes :=
  let name := mangle v.name
  if v.startPc ≠ 0 ∨ name ∈ s.2 then s
  else match renameSlot v.slot name s.1 with
    | some slots => (slots, name :: s.2)
    | none => s

def slotVariables (m : ResolvedMethod) : List ResolvedVariable :=
  (m.code?.map (·.attributes)).getD [] |>.flatMap fun
    | .localVariables rows => rows
    | _ => []

def paramNames (m : ResolvedMethod) : List Bytes :=
  -- The receiver takes the first slot.
  let first : UInt16 := if m.access.has AccessFlags.isStatic then 0 else 1
  ((slotVariables m).foldl applyVariable (numberedSlots 0 first m.type.args, [])).1.map (·.name)

def disassembly (code : ResolvedCode) : List Node :=
  code.instructions.map (fun i => .comment i.shown) ++
    code.handlers.map fun h => .comment h.shown

def zeroOf : FieldType → Value
  | .primitive .boolean => .bool false
  | .primitive .byte => .int8 0
  | .primitive .char => .char16 0
  | .primitive .short => .int16 0
  | .primitive .int => .int32 0
  | .primitive .long => .int64 0
  | .primitive .float => .float 0
  | .primitive .double => .double 0
  | _ => .null

def returnZero (result : Option FieldType) : Result Node := do
  let value ← (result.map zeroOf).toList.mapM Node.makeLiteral
  return .statement (.identifier (text "return") :: value)

def isVirtual (m : ResolvedMethod) : Bool :=
  !m.access.has AccessFlags.isStatic && m.name ≠ text "<init>" &&
    !m.access.has AccessFlags.isPrivate && !m.access.has AccessFlags.isFinal

def isPure (inInterface : Bool) (m : ResolvedMethod) : Bool :=
  m.access.has AccessFlags.isAbstract ||
    (inInterface && !m.access.has AccessFlags.isStatic && m.code?.isNone)

def methodBody (options : HeaderOptions) (inInterface : Bool) (m : ResolvedMethod) :
    Result (Option (List Node)) :=
  match m.code? with
  | some code =>
    if isPure inInterface m then return none
    else do
      let last ← returnZero m.type.result
      return some ((if options.disassemble then disassembly code else []) ++ [last])
  | none => return none

def method (options : HeaderOptions) (inInterface : Bool) (m : ResolvedMethod) (name : Bytes) :
    Result Node := do
  let result ← stored m.access (← TypeRef.ofResult m.type.result)
  let types ← m.type.args.mapM fun type => TypeRef.ofDescriptor (some type)
  Node.makeFunction (some result) name ((types.map some).zip (paramNames m)) (isVirtual m)
    (isPure inInterface m) (← methodBody options inInterface m)

def methodFault (name : Bytes) (cause : Error) : Error :=
  .causedBy {
    phase := .codegen, kind := .invalidConfig
    path := [text "methods", name], detail := text "cannot emit method" } cause

/-! ## Classes -/

/-- The base classes; the superclass of an interface is none of them. -/
def baseNames (c : ResolvedClass) : List Bytes :=
  ((if c.superName = [] ∨ c.access.has AccessFlags.isInterface then [] else [c.superName]) ++
    c.interfaces).map qualifiedName

def members (options : HeaderOptions) (c : ResolvedClass) : Result (List Node) := do
  let fields ← (c.fields.zip (fieldNames c)).mapM fun (f, name) => field f name
  let inInterface := c.access.has AccessFlags.isInterface
  let methods ← (c.methods.zip (methodNames c)).mapM fun (m, name) =>
    (method options inInterface m name).mapError (methodFault m.name)
  return fields.flatten ++ methods

def definition (options : HeaderOptions) (c : ResolvedClass) : Result Node := do
  let (package, simple) := splitClassName c.name
  let path ← Node.scopePath package
  let members ← members options c
  let struct ← Node.makeStruct (mangle simple) (baseNames c) <|
    if members.isEmpty then [] else [some (.access (text "public") members)]
  let origin := if c.sourceFile = [] then []
    else [.comment (c.name ++ text " (" ++ c.sourceFile ++ text ")")]
  return .scope path (origin ++ [struct])

end Header

def header (options : HeaderOptions) (order : List Bytes) (classes : List ResolvedClass) :
    Result Node := do
  let declarations ← Header.declarations (Header.declaredNames order classes)
  let definitions ← classes.mapM fun c =>
    (Header.definition options c).mapError (·.withClass .codegen c.name)
  let comment := if options.comment = [] then Header.defaultComment else options.comment
  return .file comment (Header.opening ++ declarations ++ definitions)

def lookupAll {m : Type → Type} [Monad m] (lookup : Bytes → m (Result ResolvedClass)) :
    List Bytes → m (Result (List ResolvedClass))
  | [] => return .ok []
  | name :: rest => do
    match ← lookup name with
    | .error e => return .error (e.withClass .codegen name)
    | .ok c => return (← lookupAll lookup rest).map (c :: ·)

def build {m : Type → Type} [Monad m] (options : HeaderOptions)
    (lookup : Option (Bytes → m (Result ResolvedClass))) (order : List Bytes) :
    m (Result Node) :=
  match lookup with
  | none => return .error (.nilPointer .codegen [] (text "class lookup"))
  | some lookup => return (← lookupAll lookup order) >>= header options order

end ClassHeader.Cpp
