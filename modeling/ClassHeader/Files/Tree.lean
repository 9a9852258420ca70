import ClassHeader.Error
import ClassHeader.Text.Utf8

/-!
# File trees

The files below a working directory, and directories around it of which nothing
else is known. Archives are kept as the lists of their entries. Paths are followed
part by part, so that a path through a file or through a missing directory fails
even where cleaning it would not.
-/

namespace ClassHeader

/-! ## Paths

Written paths and their parts. Cleaning a path drops what does not lead anywhere:
doubled slashes, single dots, and parts that a double dot behind them takes back. -/

namespace Path

abbrev here : Bytes := [Ascii.dot]
abbrev parent : Bytes := [Ascii.dot, Ascii.dot]

def parts (path : Bytes) : List Bytes := Text.splitOn Ascii.slash path

def ofParts (parts : List Bytes) : Bytes := [Ascii.slash].intercalate parts

def isAbsolute (path : Bytes) : Bool := path.head? = some Ascii.slash

def cleanPart (absolute : Bool) (done : List Bytes) (part : Bytes) : List Bytes :=
  if part = [] ∨ part = here then done
  else if part = parent then
    match done with
    | [] => if absolute then [] else [parent]
    | last :: before => if last = parent then parent :: done else before
  else part :: done

def clean (path : Bytes) : Bytes :=
  let kept := ofParts ((parts path).foldl (cleanPart (isAbsolute path)) []).reverse
  if isAbsolute path then Ascii.slash :: kept else if kept = [] then here else kept

def join (root path : Bytes) : Bytes :=
  clean (if root = [] then path else root ++ Ascii.slash :: path)

def directory (path : Bytes) : Bytes :=
  match Text.splitLast? Ascii.slash path with
  | some (before, _) => clean (before ++ [Ascii.slash])
  | none => here

/-- Whether a name leads downwards only: well-formed text whose parts are neither empty nor
dots. -/
def isDownward (name : Bytes) : Bool :=
  Utf8.isValid name &&
    (name = here || (parts name).all fun part => part ≠ [] && part ≠ here && part ≠ parent)

def extension (path : Bytes) : Bytes :=
  match Text.splitLast? Ascii.dot ((parts path).getLast?.getD []) with
  | some (_, ending) => ending
  | none => []

end Path

/-! ## Files and directories -/

structure ArchiveEntry where
  name : Bytes
  data : Bytes
  deriving DecidableEq, Repr

inductive FileContent where
  | data (bytes : Bytes)
  | archive (entries : List ArchiveEntry)
  deriving DecidableEq, Repr

/-- The bytes of a file. An archive is its signature and its entries; the signature of one without
entries is that of its directory. -/
def FileContent.bytes : FileContent → Bytes
  | .data bytes => bytes
  | .archive [] => text "PK\x05\x06" ++ List.replicate 18 0
  | .archive entries =>
    text "PK\x03\x04" ++ Netstring.encode (entries.flatMap fun e => [e.name, e.data])

inductive FileNode where
  | directory
  | file (content : FileContent)
  deriving DecidableEq, Repr

inductive FileFailure where
  | notFound
  | notDirectory
  | isDirectory
  | alreadyExists
  | nameTooLong
  | invalidName
  deriving DecidableEq, Repr

namespace FileFailure

def message : FileFailure → Bytes
  | .notFound => text "no such file or directory"
  | .notDirectory => text "not a directory"
  | .isDirectory => text "is a directory"
  | .alreadyExists => text "file exists"
  | .nameTooLong => text "file name too long"
  | .invalidName => text "invalid argument"

def error (operation : String) (path : Bytes) (failure : FileFailure) : Error :=
  .plain (text operation ++ text " " ++ path ++ text ": " ++ failure.message)

end FileFailure

/-- What stands at each place; a place is the list of names that lead to it. Places above the
working directory start with double dots, places below the root with an empty name. -/
structure FileTree where
  nodes : List (List Bytes × FileNode) := []
  deriving DecidableEq, Repr

namespace FileTree

def root : List Bytes := [[]]

def isOutside (place : List Bytes) : Bool := place.all (· = Path.parent)

/-- What stands at a place. The working directory, those above it and the root are always
there. -/
def at? (t : FileTree) (place : List Bytes) : Option FileNode :=
  if isOutside place ∨ place = root then some .directory else t.nodes.lookup place

def above (place : List Bytes) : List Bytes :=
  if place = root then root
  else if isOutside place then place ++ [Path.parent]
  else place.dropLast

def follow (t : FileTree) (place : List Bytes) : List Bytes → Except FileFailure (List Bytes)
  | [] => return place
  | part :: rest =>
    match t.at? place with
    | none => throw .notFound
    | some (.file _) => throw .notDirectory
    | some .directory =>
      if part = [] ∨ part = Path.here then t.follow place rest
      -- Only out of a directory, so cleaning the path first would find more places.
      else if part = Path.parent then t.follow (above place) rest
      else if 255 < part.length then throw .nameTooLong
      else if (t.at? (place ++ [part])).isNone then throw .notFound
      else t.follow (place ++ [part]) rest

def checkPath (path : Bytes) : Except FileFailure Unit :=
  if 0 ∈ path then throw .invalidName
  else if path = [] then throw .notFound
  else if 4096 ≤ path.length then throw .nameTooLong
  else return

def startOf (path : Bytes) : List Bytes := if Path.isAbsolute path then root else []

def locate (t : FileTree) (path : Bytes) : Except FileFailure (List Bytes) := do
  checkPath path
  t.follow (startOf path) (Path.parts path)

def find (t : FileTree) (path : Bytes) : Except FileFailure FileNode := do
  let place ← t.locate path
  match t.at? place with
  | some node => return node
  | none => throw .notFound

def stat (t : FileTree) (path : Bytes) : Result FileNode :=
  (t.find path).mapError (FileFailure.error "stat" path)

def read (t : FileTree) (path : Bytes) : Result FileContent := do
  match ← (t.find path).mapError (FileFailure.error "open" path) with
  | .file content => return content
  | .directory => throw (FileFailure.isDirectory.error "read" path)

/-! ## Changes -/

def set (t : FileTree) (place : List Bytes) (node : FileNode) : FileTree :=
  ⟨t.nodes.filter (·.1 ≠ place) ++ [(place, node)]⟩

def ancestors (place : List Bytes) : List (List Bytes) :=
  (List.range (place.length - 1)).map fun n => place.take (n + 1)

def addDirectories (t : FileTree) (places : List (List Bytes)) : FileTree :=
  places.foldl (fun t place => if (t.at? place).isSome then t else t.set place .directory) t

def install (t : FileTree) (path : Bytes) (node : FileNode) : FileTree :=
  let place := (Path.parts (Path.clean path)).filter (· ≠ Path.here)
  let t := t.addDirectories (ancestors place)
  match node with
  | .directory => t.addDirectories [place]
  | .file _ => t.set place node

def remove (t : FileTree) (path : Bytes) : FileTree :=
  match t.locate path with
  | .ok place => ⟨t.nodes.filter fun (other, _) => ¬place.isPrefixOf other⟩
  | .error _ => t

/-- The place for a file at a path, whose directory has to exist. A name with a slash behind it is
no name for a file. -/
def locateFile (t : FileTree) (path : Bytes) : Except FileFailure (List Bytes) := do
  checkPath path
  let parts := (Path.parts path).reverse.dropWhile (· = []) |>.reverse
  let name := parts.getLastD []
  -- Such a path names a directory, if anything.
  if name = [] ∨ name = Path.here ∨ name = Path.parent then t.follow (startOf path) parts
  else
    let directory ← t.follow (startOf path) parts.dropLast
    if t.at? directory ≠ some .directory then throw .notDirectory
    if path.getLast? = some Ascii.slash then throw .isDirectory
    if 255 < name.length then throw .nameTooLong
    return directory ++ [name]

def write (t : FileTree) (path : Bytes) (content : FileContent) (mustBeNew : Bool) :
    Except FileFailure FileTree := do
  let place ← t.locateFile path
  match t.at? place with
  | some .directory => throw (if mustBeNew then .alreadyExists else .isDirectory)
  | some (.file _) =>
    if mustBeNew then throw .alreadyExists
    return t.set place (.file content)
  | none => return t.set place (.file content)

/-- Makes a directory and those above it; a file in the way is the one reported. -/
def makeDirectories (t : FileTree) (path : Bytes) : Result FileTree := do
  let place := Path.parts (Path.clean path)
  match (ancestors place ++ [place]).find? fun p => t.at? p matches some (.file _) with
  | some inTheWay => throw (FileFailure.notDirectory.error "mkdir" (Path.ofParts inTheWay))
  | none => return t.addDirectories (ancestors place ++ [place])

/-! ## Listing -/

def filesBelow (t : FileTree) (place : List Bytes) : List (List Bytes) :=
  t.nodes.filterMap fun (other, node) =>
    match node with
    | .file _ => if place.isPrefixOf other then some (other.drop place.length) else none
    | .directory => none

end FileTree
end ClassHeader
