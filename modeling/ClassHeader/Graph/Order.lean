import ClassHeader.Error
import ClassHeader.Graph.Basic

/-!
# Orders of a dependency graph

A depth-first walk with an explicit stack puts each node behind all targets of
its hard edges. The walk starts at the nodes in their order and follows the
edges in theirs; an edge back to a node on the stack closes a cycle. Which nodes are
on the stack, and which are done, is kept in bit sets.
-/

namespace ClassHeader

/-! ## Bit sets

Sets of naturals as words of 64 bits. The words grow when a member beyond them
is added. -/

structure BitSet where
  words : List UInt64
  deriving DecidableEq, Repr

namespace BitSet

def empty (bound : Nat) : BitSet := ⟨List.replicate ((bound + 64) / 64) 0⟩

/-- The member that an index stands for; an index below zero counts back from the end of the first
word. -/
def place (index : Int) : Nat := if index < 0 then (index % 64).toNat else index.toNat

def mask (v : Nat) : UInt64 := 1 <<< UInt64.ofNat (v % 64)

def grown (words : List UInt64) (index : Nat) : List UInt64 :=
  words ++ List.replicate (index + 1 - words.length) 0

def insert (s : BitSet) (v : Nat) : BitSet :=
  ⟨(grown s.words (v / 64)).modify (v / 64) (· ||| mask v)⟩

def erase (s : BitSet) (v : Nat) : BitSet :=
  ⟨s.words.modify (v / 64) (· &&& ~~~mask v)⟩

def contains (s : BitSet) (v : Nat) : Bool :=
  match s.words[v / 64]? with
  | some word => word &&& mask v ≠ 0
  | none => false

def ones (word : UInt64) : Nat := ((List.range 64).filter word.toNat.testBit).length

def size (s : BitSet) : Nat := s.words.foldr (fun word n => ones word + n) 0

end BitSet

/-! ## The walk -/

namespace Graph

structure Frame where
  node : Nat
  left : List Nat
  deriving DecidableEq, Repr

/-- The state of the walk; nodes are numbers in the order of the graph. -/
structure Walk where
  /-- The path from the root to the current node, that node first. -/
  stack : List Frame
  onStack : BitSet
  done : BitSet
  order : List Nat
  deriving DecidableEq, Repr

def hardTargets (g : Graph) (node : Nat) : List Nat :=
  match g.nodes[node]? with
  | some name =>
    (g.edges.filter fun e => e.source = name && e.kind = .hard).map fun e =>
      g.nodes.idxOf e.target
  | none => []

def nameOf (g : Graph) (node : Nat) : Bytes := (g.nodes[node]?).getD []

def cycleMembers (g : Graph) (stack : List Frame) (target : Nat) : List Bytes :=
  let path := (stack.reverse.map (·.node)).dropWhile (· ≠ target)
  (path ++ [target]).map g.nameOf

def enter (g : Graph) (w : Walk) (node : Nat) : Walk :=
  { w with
    stack := { node, left := g.hardTargets node } :: w.stack
    onStack := w.onStack.insert node }

def advance (g : Graph) (w : Walk) : Result Walk :=
  match w.stack with
  | [] => return w
  | ⟨node, []⟩ :: below =>
    -- All its targets are in the order by now.
    return {
      stack := below
      onStack := w.onStack.erase node
      done := w.done.insert node
      order := w.order ++ [node] }
  | ⟨node, target :: left⟩ :: below =>
    let w' := { w with stack := ⟨node, left⟩ :: below }
    if w.onStack.contains target then throw (.cycle .collect (g.cycleMembers w'.stack target))
    else if w.done.contains target then return w'
    else return g.enter w' target

def descend (g : Graph) : (fuel : Nat) → Walk → Result Walk
  | 0, w => return w
  | fuel + 1, w =>
    if w.stack.isEmpty then return w
    else do g.descend fuel (← g.advance w)

/-- The walk from a root, which looks at each edge and leaves each node once at most. -/
def walkFrom (g : Graph) (w : Walk) (root : Nat) : Result Walk :=
  if w.done.contains root then return w
  else g.descend (g.edges.length + g.nodes.length + 1) (g.enter w root)

def start (g : Graph) : Walk where
  stack := []
  onStack := .empty g.nodes.length
  done := .empty g.nodes.length
  order := []

def topologicalOrder (g : Graph) : Result (List Bytes) := do
  let w ← (List.range g.nodes.length).foldlM g.walkFrom g.start
  return w.order.map g.nameOf

/-! ## Export -/

structure Export where
  nodes : List Bytes
  edges : List Edge
  order : List Bytes
  cycle : List Bytes
  deriving DecidableEq, Repr

def cycleOf (e : Error) : List Bytes := (e.fault?.map (·.members)).getD []

def exported (g : Graph) : Export :=
  match g.topologicalOrder with
  | .ok order => { nodes := g.nodes, edges := g.edges, order, cycle := [] }
  | .error e => { nodes := g.nodes, edges := g.edges, order := [], cycle := cycleOf e }

/-! ## Exports in YAML

Block style with two blanks for each level. Names are written as they are. -/

namespace Yaml

def sequence (key : String) (items : List (List Bytes)) : Bytes :=
  if items.isEmpty then text key ++ text ": []\n"
  else
    text key ++ text ":\n" ++ items.flatMap fun lines =>
      match lines with
      | [] => []
      | first :: rest =>
        text "  - " ++ first ++ text "\n" ++ rest.flatMap fun s => text "    " ++ s ++ text "\n"

def edgeLines (e : Edge) : List Bytes :=
  [text "from: " ++ e.source, text "to: " ++ e.target, text "kind: " ++ e.kind.name]

end Yaml

def Export.yaml (x : Export) : Bytes :=
  let names := fun (names : List Bytes) => names.map fun name => [name]
  let optional := fun (key : String) (items : List Bytes) =>
    if items.isEmpty then [] else Yaml.sequence key (names items)
  Yaml.sequence "nodes" (names x.nodes) ++ Yaml.sequence "edges" (x.edges.map Yaml.edgeLines) ++
    optional "order" x.order ++ optional "cycle" x.cycle

end Graph
end ClassHeader
