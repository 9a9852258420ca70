import ClassHeader.LineEditor
import ClassHeader.Resolve.Class
import ClassHeader.Session
import ClassHeader.Text.Width

/-!
# Exploring a dependency graph

The state of a terminal browser: a list of classes that a filter narrows down,
one of them selected, and a pane with the details of a class. Keys change the
state; what needs a class is asked for by the answer to a key.
-/

namespace ClassHeader

namespace Explorer

inductive Mode where
  | browse
  | filter
  | detail
  deriving DecidableEq, Repr

def Mode.name : Mode → Bytes
  | .browse => text "browse"
  | .filter => text "filter"
  | .detail => text "detail"

inductive Key where
  | up
  | down
  | enter
  | escape
  | backspace
  | interrupt
  | typed (chars : List Char)
  deriving DecidableEq, Repr

def Key.ofName (name : String) : Key :=
  match [("up", up), ("down", down), ("enter", enter), ("esc", escape), ("backspace", backspace),
    ("ctrl+c", interrupt)].lookup name with
  | some key => key
  | none => .typed name.toList

inductive Reply where
  | nothing
  | quit
  | describe (name : Bytes)
  deriving DecidableEq, Repr

end Explorer

structure Explorer where
  main : Bytes
  failure : Option Error := none
  /-- Absent while the classes are collected. -/
  graph : Option Graph := none
  note : Bytes := []
  order : List Bytes := []
  visible : List Bytes := []
  selected : Nat := 0
  query : LineEditor := {}
  details : Bytes := []
  height : Nat := 24
  mode : Explorer.Mode := .browse
  draw : Bytes → Bytes := Text.block

namespace Explorer

/-! ## Changes -/

def isMatch (query : List Char) (name : Bytes) : Bool :=
  query = [] || Text.contains (Text.lower (Text.ofChars query)) (Text.lower name)

def applyQuery (x : Explorer) : Explorer :=
  let visible := x.order.filter (isMatch x.query.text)
  { x with
    visible
    selected := if visible.length ≤ x.selected then visible.length - 1 else x.selected }

/-- Shows a graph in its order, or in the order of discovery beside a note when it has none. -/
def showGraph (x : Explorer) (graph : Graph) : Explorer :=
  match graph.topologicalOrder with
  | .ok order => applyQuery { x with graph := some graph, order }
  | .error e => applyQuery { x with graph := some graph, order := graph.nodes, note := e.message }

def collected (x : Explorer) : Result Graph → Explorer
  | .ok graph => x.showGraph graph
  | .error e => { x with failure := some e }

def resized (x : Explorer) (height : Nat) : Explorer := { x with height }

def edit (query : LineEditor) : Key → LineEditor
  | .typed chars => query.type chars
  | .backspace => query.deleteBackward
  | _ => query

def moveUp (x : Explorer) : Explorer := { x with selected := x.selected - 1 }

def moveDown (x : Explorer) : Explorer :=
  if x.selected + 1 < x.visible.length then { x with selected := x.selected + 1 } else x

def pressBrowse (x : Explorer) : Key → Explorer × Reply
  | .up | .typed ['k'] => (x.moveUp, .nothing)
  | .down | .typed ['j'] => (x.moveDown, .nothing)
  | .typed ['q'] => (x, .quit)
  | .typed ['/'] => ({ x with mode := .filter }, .nothing)
  | .enter =>
    match x.visible[x.selected]? with
    | some name => ({ x with mode := .detail }, .describe name)
    | none => (x, .nothing)
  | _ => (x, .nothing)

def pressFilter (x : Explorer) (edited : LineEditor) : Key → Explorer
  | .enter | .escape => { x with mode := .browse }
  -- All other keys are for the line editor, even those it has no use for.
  | _ => applyQuery { x with query := edited }

def pressDetail (x : Explorer) : Key → Explorer × Reply
  | .typed ['q'] => (x, .quit)
  | .escape | .backspace => ({ x with mode := .browse }, .nothing)
  | _ => (x, .nothing)

/-- What a key does, where `edited` is what editing makes of the query. -/
def pressEditing (x : Explorer) (edited : LineEditor) (key : Key) : Explorer × Reply :=
  if key = .interrupt then (x, .quit)
  else match x.mode with
    | .browse => x.pressBrowse key
    | .filter => (x.pressFilter edited key, .nothing)
    | .detail => x.pressDetail key

def press (x : Explorer) (key : Key) : Explorer × Reply :=
  x.pressEditing (edit x.query key) key

/-! ## What is shown -/

def describe (draw : Bytes → Bytes) (graph : Graph) (name : Bytes)
    (found : Result ResolvedClass) : Bytes :=
  let joined := fun (names : List Bytes) => (text ", ").intercalate names
  let targets := fun kind =>
    joined (((graph.edgesFrom name).filter (·.kind = kind)).map (·.target))
  Listing.line [text "requires (hard)", targets .hard] ++
    Listing.line [text "references (soft)", targets .soft] ++
    Listing.line [text "used by", joined (graph.dependents name)] ++ Listing.line [] ++
    match found with
    | .ok c => c.paintedListing draw true
    | .error e => Listing.line [draw e.message]

/-- The list takes what the other lines leave of the window, and at least one row. -/
def rowCount (x : Explorer) : Nat := max (x.height - 8) 1

def firstRow (x : Explorer) : Nat :=
  if x.rowCount ≤ x.selected then x.selected - x.rowCount + 1 else 0

def rows (x : Explorer) : List (Bytes × Nat) :=
  (x.visible.zipIdx.drop x.firstRow).take x.rowCount

def rowLine (x : Explorer) (row : Bytes × Nat) : Bytes :=
  let shown := Text.padLeft 3 (Text.ofNat (x.order.idxOf row.1 + 1)) ++ text "  " ++ row.1
  if row.2 = x.selected then x.draw (text "> " ++ shown) else text "  " ++ shown

def listLines (x : Explorer) : List Bytes :=
  x.rows.map x.rowLine ++ (if x.visible.isEmpty then [text "  no classes match"] else []) ++
    [[], text "↑/↓ select • enter details • / filter • q quit"]

def detailLines (x : Explorer) : List Bytes :=
  [x.draw ((x.visible[x.selected]?).getD []), text "↑/↓ scroll • esc back • q quit"]

/-- What the screen shows. The line in which the query is edited and the pane with the details are
left out: both stand before the last line. -/
def screen (x : Explorer) : Bytes :=
  match x.failure, x.graph with
  | some e, _ =>
    x.draw (e.category.name ++ text ": " ++ e.message ++ text "\n\nPress ctrl+c to quit.")
  | none, none => text "Collecting classes reachable from " ++ x.main ++ text "..."
  | none, some graph =>
    (text "\n").intercalate (
      [text " jaot explore  " ++ x.main ++ text "  " ++ Text.ofNat graph.nodes.length ++
        text " classes, " ++ Text.ofNat graph.edges.length ++ text " edges"] ++
      (if x.note = [] then [] else [x.draw x.note]) ++ [[]] ++
      if x.mode = .detail then x.detailLines else x.listLines)

/-- The lines of the screen. Names may hold line ends, so there may be more lines than rows; of the
lines above the details only as many are kept as there are without such names. -/
def view (x : Explorer) : List Bytes :=
  let lines := Text.splitOn Ascii.newline x.screen
  if x.mode = .detail then
    lines.take (if x.note = [] then 3 else 4) ++ lines.drop (lines.length - 1)
  else lines

/-! ## In a session -/

variable {m : Type → Type} [Monad m]

def start (options : SessionOptions) (provider : Provider m) (main : Bytes) :
    StateT Session m Explorer := do
  return collected { main } (← (Session.collect options provider main).run)

def handle (options : SessionOptions) (provider : Provider m) (x : Explorer) (key : Key) :
    StateT Session m (Explorer × Bool) := do
  let (x, reply) := x.press key
  match reply, x.graph with
  | .describe name, some graph =>
    let found ← (Session.resolve options provider name).run
    return ({ x with details := describe x.draw graph name found }, false)
  | reply, _ => return (x, reply = .quit)

end Explorer
end ClassHeader
