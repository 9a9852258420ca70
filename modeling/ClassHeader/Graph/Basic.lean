import ClassHeader.Text.Basic

/-!
# Dependency graphs

Nodes are class names in the order of first mention. There is one edge for each
pair of nodes, in the order in which pairs are first added; an edge that was ever
added as hard is hard, and stays in its place.
-/

namespace ClassHeader

inductive EdgeKind where
  | soft
  /-- The target has to come first. -/
  | hard
  deriving DecidableEq, Repr

def EdgeKind.name : EdgeKind → Bytes
  | .soft => text "SOFT"
  | .hard => text "HARD"

structure Edge where
  source : Bytes
  target : Bytes
  kind : EdgeKind
  deriving DecidableEq, Repr

structure Graph where
  nodes : List Bytes
  edges : List Edge
  deriving DecidableEq, Repr

namespace Graph

def empty : Graph := ⟨[], []⟩

def addNode (g : Graph) (name : Bytes) : Graph :=
  if name ∈ g.nodes then g else { g with nodes := g.nodes ++ [name] }

/-- The edges with one more, which makes an edge of the same pair hard if it is hard itself. -/
def addTo (edges : List Edge) (e : Edge) : List Edge :=
  match edges with
  | [] => [e]
  | f :: rest =>
    if f.source = e.source ∧ f.target = e.target then
      (if e.kind = .hard then { f with kind := .hard } else f) :: rest
    else f :: addTo rest e

def addEdge (g : Graph) (source target : Bytes) (kind : EdgeKind) : Graph :=
  let g := (g.addNode source).addNode target
  { g with edges := addTo g.edges { source, target, kind } }

def hasNode (g : Graph) (name : Bytes) : Bool := name ∈ g.nodes

def edgesFrom (g : Graph) (name : Bytes) : List Edge := g.edges.filter (·.source = name)

def dependents (g : Graph) (name : Bytes) : List Bytes :=
  (g.edges.filter (·.target = name)).map (·.source)

end Graph
end ClassHeader
