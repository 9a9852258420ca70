import ClassHeader.ClassFile.Basic
import ClassHeader.Descriptor
import ClassHeader.Graph.Order
import ClassHeader.Text.LowerCase

/-!
# Collecting dependencies

Breadth-first discovery of all classes that a class needs. A class needs every
class that a class constant of its pool names, directly or as the element of an
array type.
-/

namespace ClassHeader

inductive EdgePolicy where
  | strict
  /-- Superclass, interfaces and the classes of fields. -/
  | structural
  deriving DecidableEq, Repr

namespace EdgePolicy

def name : EdgePolicy → Bytes
  | .strict => text "strict"
  | .structural => text "structural"

/-- The policy of a name in any case of letters; an empty name is the strict one. -/
def parse (s : Bytes) : Result EdgePolicy :=
  let word := Text.lower s
  if word = [] ∨ word = text "strict" then return .strict
  else if word = text "structural" then return .structural
  else
    throw (.invalidConfig .config (text "edges")
      (text "unknown edge policy " ++ s ++ text ", want structural or strict"))

end EdgePolicy

namespace ClassFile

def classConstants (c : ClassFile) (self : Bytes) : Result (List FieldType) :=
  (c.pool.entries.filterMap fun entry => match entry with
    | some (.classRef name) => some name
    | _ => none).mapM fun index => do
      let name ← c.pool.utf8 index
      (FieldType.ofClassName name).mapError (·.withClass .collect self)

def distinctFrom (seen : List Bytes) : List Bytes → List Bytes
  | [] => []
  | name :: rest =>
    if name ∈ seen then distinctFrom seen rest else name :: distinctFrom (name :: seen) rest

def dependencies (c : ClassFile) : Result (List Bytes) := do
  let self ← c.name
  let types ← c.classConstants self
  return distinctFrom [self] (types.filterMap FieldType.className?)

def structuralNames (c : ClassFile) : Result (List Bytes) := do
  let superName ← c.superName
  let interfaces ← c.interfaceNames
  let fieldClasses ← c.fields.mapM fun f => do
    return (← FieldType.parse (← f.descriptor c.pool)).className?
  return (if superName = [] then [] else [superName]) ++ interfaces ++ fieldClasses.filterMap id

def dependencyKinds (c : ClassFile) (policy : EdgePolicy) : Result (List (Bytes × EdgeKind)) := do
  let names ← c.dependencies
  match policy with
  | .strict => return names.map fun name => (name, .hard)
  | .structural =>
    let first ← c.structuralNames
    return names.map fun name => (name, if name ∈ first then .hard else .soft)

end ClassFile

namespace Collect

def notLoaded (name : Bytes) (e : Error) : Error :=
  match e with
  | .fault _ | .causedBy _ _ => e.withClass .load name
  | _ =>
    .causedBy {
      phase := .load, kind := .notFound, className := name
      detail := text "class " ++ Text.quoted name ++ text " not found" } e

/-- Every name that was ever queued is in `visited`; those in `queue` are still to be loaded. -/
structure State where
  graph : Graph
  visited : List Bytes
  queue : List Bytes
  deriving DecidableEq, Repr

def visit (source : Bytes) (s : State) (dependency : Bytes × EdgeKind) : State :=
  let graph := s.graph.addEdge source dependency.1 dependency.2
  if dependency.1 ∈ s.visited then { s with graph }
  else {
    graph, visited := s.visited ++ [dependency.1]
    queue := s.queue ++ [dependency.1] }

def scan (policy : EdgePolicy) (name : Bytes) (s : State) (c : ClassFile) : Result State := do
  let found ← (c.dependencyKinds policy).mapError (·.withClass .collect name)
  return found.foldl (visit name) s

def beyondLimit (name : Bytes) : Error :=
  .fault {
    phase := .collect, kind := .outOfBounds, className := name
    detail := text "too many classes" }

def run {m : Type → Type} [Monad m] (load : Bytes → m (Result ClassFile)) (policy : EdgePolicy)
    (left : Nat) (s : State) : m (Result Graph) :=
  match left, s.queue with
  | _, [] => return .ok s.graph
  | 0, name :: _ => return .error (beyondLimit name)
  | left + 1, name :: queue => do
    match ← load name with
    | .error e => return .error (notLoaded name e)
    | .ok c =>
      match scan policy name { s with queue } c with
      | .error e => return .error e
      | .ok s => run load policy left s

end Collect

/-- The graph of all classes that `main` needs. No more than `limit + 1` classes are asked for, so
a limit of as many classes as can be loaded at all is enough: the last one asked for fails. -/
def collect {m : Type → Type} [Monad m] (loader : Option (Bytes → m (Result ClassFile)))
    (policy : EdgePolicy) (limit : Nat) (main : Bytes) : m (Result Graph) :=
  match loader with
  | none => return .error (.nilPointer .collect [] (text "class loader"))
  | some load => Collect.run load policy (limit + 1) {
      graph := Graph.empty.addNode main, visited := [main], queue := [main] }

end ClassHeader
