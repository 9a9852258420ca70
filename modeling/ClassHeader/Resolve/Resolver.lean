import ClassHeader.ClassFile.Nesting
import ClassHeader.Resolve.Class

/-!
# Resolving class files

Resolving follows every index of a class file. Attributes on the ignore list are
passed over without a look at their payload; all others must be known.
-/

namespace ClassHeader

/-- Gives a fault its place, unless it has one already. Only the fault itself counts, not
one among its causes. -/
def Error.withPath (path : List Bytes) : Error → Error
  | .fault f => .fault (if f.path = [] then { f with path } else f)
  | .causedBy f cause => .causedBy (if f.path = [] then { f with path } else f) cause
  | e => e

structure Resolver where
  ignored : List Bytes
  deriving DecidableEq, Repr

namespace Resolver

def instruction (p : Pool) (i : Bytecode.Instruction) : Result ResolvedInstruction :=
  match i.poolIndex? with
  | none => return { instruction := i, ref := none }
  | some index => do
    let ref ← (p.resolve index).mapError (·.withPath [text "code", i.opcode.name])
    return { instruction := i, ref := some ref }

def handler (p : Pool) (h : ExceptionHandler) : Result ResolvedHandler := do
  let catchType ← if h.catchType = 0 then pure [] else p.className h.catchType
  return { startPc := h.startPc, stopPc := h.stopPc, handlerPc := h.handlerPc, catchType }

def constantValue (p : Pool) (a : Attribute) : Result Literal := do
  let c ← p.get (← Payload.index AttributeName.constantValue p a)
  match ← c.literal? p with
  | some value => return value
  | none =>
    throw (.typeMismatch .resolve [AttributeName.constantValue] (text "literal constant")
      c.tag.name)

def localVariable (p : Pool) (row : LocalVariable) : Result ResolvedVariable := do
  let name ← p.utf8 row.nameIndex
  let type ← FieldType.parse (← p.utf8 row.descriptorIndex)
  return { name, type, startPc := row.startPc, length := row.length, slot := row.slot }

def innerClass (p : Pool) (row : InnerClass) : Result ResolvedInnerClass := do
  let inner ← p.className row.inner
  let outer ← if row.outer = 0 then pure [] else p.className row.outer
  let name ← if row.name = 0 then pure [] else p.utf8 row.name
  return { inner, outer, name, access := row.access }

def bootstrapMethod (p : Pool) (m : BootstrapMethod) : Result ResolvedBootstrap := do
  match ← p.resolve m.reference with
  | .methodHandle kind memberKind member =>
    return { kind, memberKind, member, arguments := ← m.arguments.mapM p.resolve }
  | ref =>
    throw (.typeMismatch .resolve [AttributeName.bootstrapMethods] (text "MethodHandle")
      ref.shown)

def each {α : Type} (path : List Bytes) (resolve : α → Result (Option ResolvedAttribute))
    (attributes : List α) : Result (List ResolvedAttribute) := do
  let resolved ← attributes.mapM fun a => (resolve a).mapError (·.withPath path)
  return resolved.filterMap id

def flat (p : Pool) (name : Bytes) (a : Attribute) : Result ResolvedAttribute := do
  if name = AttributeName.lineNumberTable then
    return .lineNumbers (← Payload.lineNumbers p a)
  else if name = AttributeName.sourceFile then
    return .sourceFile (← p.utf8 (← Payload.index name p a))
  else if name = AttributeName.constantValue then
    return .constantValue (← constantValue p a)
  else if name = AttributeName.localVariableTable then
    return .localVariables (← (← Payload.localVariables p a).mapM (localVariable p))
  else if name = AttributeName.exceptions then
    return .exceptions (← (← Payload.exceptions p a).mapM p.className)
  else if name = AttributeName.signature then
    return .signature (← p.utf8 (← Payload.index name p a))
  else if name = AttributeName.innerClasses then
    return .innerClasses (← (← Payload.innerClasses p a).mapM (innerClass p))
  else if name = AttributeName.bootstrapMethods then
    return .bootstrapMethods (← (← Payload.bootstrapMethods p a).mapM (bootstrapMethod p))
  else if name = AttributeName.deprecated then do
    Payload.marker name p a
    return .deprecated
  else if name = AttributeName.synthetic then do
    Payload.marker name p a
    return .synthetic
  else
    throw (.unsupported .resolve (text "attribute " ++ Text.quoted name ++ text " not supported"))

def resolveAttribute (r : Resolver) (p : Pool) (a : Attribute) :
    Result (Option ResolvedAttribute) := do
  let name ← a.name p
  if name ∈ r.ignored then return none
  else if name = AttributeName.code then
    -- The equation tells the termination argument where the attributes below come from.
    match _h : Payload.code p a with
    | .error e => throw e
    | .ok c =>
      let instructions ← c.instructions.mapM (instruction p)
      let handlers ← c.handlers.mapM (handler p)
      let attributes ← each [text "code"] (fun b => resolveAttribute r p b.1) c.attributes.attach
      return some (.code {
        maxStack := c.maxStack, maxLocals := c.maxLocals, instructions, handlers, attributes })
  else return some (← flat p name a)
termination_by a.info.length
decreasing_by exact Payload.info_lt_of_code _h b.2

def resolveAttributes (r : Resolver) (p : Pool) (path : List Bytes) (attributes : List Attribute) :
    Result (List ResolvedAttribute) :=
  each path (r.resolveAttribute p) attributes

def resolveField (r : Resolver) (p : Pool) (f : MemberInfo) : Result ResolvedField := do
  let name ← f.name p
  let path := [text "fields", name]
  let type ← (FieldType.parse (← f.descriptor p)).mapError (·.withPath path)
  let attributes ← r.resolveAttributes p path f.attributes
  return { name, type, access := f.access, attributes }

def resolveMethod (r : Resolver) (p : Pool) (m : MemberInfo) : Result ResolvedMethod := do
  let name ← m.name p
  let descriptor ← m.descriptor p
  let path := [text "methods", name ++ descriptor]
  let type ← (MethodType.parse descriptor).mapError (·.withPath path)
  let attributes ← r.resolveAttributes p path m.attributes
  return { name, type, access := m.access, attributes }

def sourceFile (attributes : List ResolvedAttribute) : Bytes :=
  -- Of several attributes the last one counts.
  attributes.foldl (fun found a => match a with
    | .sourceFile name => name
    | _ => found) []

def contents (r : Resolver) (c : ClassFile) (name : Bytes) : Result ResolvedClass := do
  let p := c.pool
  let superName ← c.superName
  let interfaces ← c.interfaceNames
  let fields ← c.fields.mapM (r.resolveField p)
  let methods ← c.methods.mapM (r.resolveMethod p)
  let attributes ← r.resolveAttributes p [text "attributes"] c.attributes
  return {
    name, superName, sourceFile := sourceFile attributes, interfaces, fields, methods, attributes
    access := c.access, major := c.major, minor := c.minor }

/-- The resolved class. Faults behind its name carry that name. -/
def resolve (r : Resolver) : Option ClassFile → Result ResolvedClass
  | none => throw (.nilPointer .resolve [] (text "class"))
  | some c => do
    let name ← c.name
    (r.contents c name).mapError (·.withClass .resolve name)

end Resolver
end ClassHeader
