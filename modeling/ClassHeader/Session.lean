import ClassHeader.ClassFile.Decode
import ClassHeader.ClassFile.Validate
import ClassHeader.Cpp.Header
import ClassHeader.Cpp.Verify
import ClassHeader.Graph.Collect
import ClassHeader.Resolve.Resolver

/-!
# Sessions

A session compiles classes that a provider hands out by name. It remembers the
classes it has loaded and resolved, so that each is fetched once; what failed is
not remembered.
-/

namespace ClassHeader

structure ClassStream where
  data : Bytes
  readError : Option Error := none
  closeError : Option Error := none

structure Provider (m : Type → Type) where
  fetch : Bytes → m (Result ClassStream)
  /-- A limit to the classes that one class may need. The number of classes that can be fetched
  under the names that they declare is enough. -/
  capacity : Nat

def Provider.missing {m : Type → Type} [Monad m] : Provider m where
  fetch _ := return .error (.nilPointer .load [] (text "class provider"))
  capacity := 0

structure SessionOptions where
  ignore : List Bytes := []
  comment : Bytes := []
  policy : EdgePolicy := .strict
  verify : Bool := false
  disassemble : Bool := false
  parser : Option Cpp.TreeParser := none

structure Session where
  classes : List (Bytes × ClassFile) := []
  resolved : List (Bytes × ResolvedClass) := []

/-- Work on a session. A failure keeps what was remembered before it. -/
abbrev SessionM (m : Type → Type) := ExceptT Error (StateT Session m)

structure Compilation where
  graph : Graph
  order : List Bytes
  source : Bytes

def ClassStream.contents (s : ClassStream) : Result Bytes :=
  match s.readError, s.closeError with
  | some e, _ | none, some e => throw e
  | none, none => return s.data

/-- The class file of a name, which has to be valid and to declare that name. -/
def ClassStream.classFile (name : Bytes) (s : ClassStream) : Result ClassFile := do
  let data ← s.contents.mapError (.causedBy {
    phase := .load, kind := .invalidData, className := name, detail := text "read class bytes" })
  let (c, declared) ← (do
    let c ← ClassFile.decodeValid data
    return (c, ← c.name)).mapError (Error.withClass .decode name)
  ensure (declared = name) (.fault {
    phase := .load, kind := .typeMismatch, className := name
    detail := text "class file declares " ++ declared })
  return c

namespace Session

variable {m : Type → Type} [Monad m]

def load (provider : Provider m) (name : Bytes) : SessionM m ClassFile := do
  if let some c := (← get).classes.lookup name then
    return c
  let stream ← MonadExcept.ofExcept (← provider.fetch name)
  let c ← MonadExcept.ofExcept (stream.classFile name)
  modify fun s => { s with classes := (name, c) :: s.classes }
  return c

def resolve (options : SessionOptions) (provider : Provider m) (name : Bytes) :
    SessionM m ResolvedClass := do
  if let some c := (← get).resolved.lookup name then
    return c
  let c ← MonadExcept.ofExcept (Resolver.resolve ⟨options.ignore⟩ (some (← load provider name)))
  modify fun s => { s with resolved := (name, c) :: s.resolved }
  return c

def collect (options : SessionOptions) (provider : Provider m) (main : Bytes) :
    SessionM m Graph :=
  ClassHeader.collect (some fun name => (load provider name).run) options.policy
    provider.capacity main

def compile (options : SessionOptions) (provider : Provider m) (main : Bytes) :
    SessionM m Compilation := do
  let graph ← collect options provider main
  let order ← MonadExcept.ofExcept graph.topologicalOrder
  let classes ← order.mapM (resolve options provider)
  let node ← MonadExcept.ofExcept (Cpp.header ⟨options.comment, options.disassemble⟩ order classes)
  let printed := node.printInto .unlimited
  MonadExcept.ofExcept printed.result
  if options.verify then
    MonadExcept.ofExcept (Cpp.verify options.parser printed.sink.text)
  return { graph, order, source := printed.sink.text }

end Session
end ClassHeader
