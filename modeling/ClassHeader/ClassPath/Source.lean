import ClassHeader.Files.Tree
import ClassHeader.Session

/-!
# Sources of classes

One entry of a class path: a directory, whose files are looked at anew each time,
or an archive, whose entries are known from when it was opened.
-/

namespace ClassHeader

inductive Source where
  | archive (path : Bytes) (entries : List ArchiveEntry)
  | directory (root : Bytes)
  deriving DecidableEq, Repr

namespace Source

def suffix : Bytes := text ".class"

def notFound (name : Bytes) : Error := .notFound .load (text "class") name

def notArchive : Error := .plain (text "zip: not a valid zip file")

def path : Source → Bytes
  | .archive path _ => path
  | .directory root => root

def isArchive : Source → Bool
  | .archive .. => true
  | .directory _ => false

def ofContent (action : String) (path : Bytes) : FileContent → Result Source
  | .archive entries => return .archive path entries
  | .data _ => throw (.load (text action ++ text " archive " ++ path) notArchive)

def ofPath (t : FileTree) (path : Bytes) : Result Source := do
  match ← (t.stat path).mapError (.load (text "class path entry " ++ path)) with
  | .directory => return .directory path
  | .file content => ofContent "open" path content

def className? (file : Bytes) : Option Bytes :=
  if suffix.isSuffixOf file then some (Text.dropTail suffix file) else none

/-- The data of a class in an archive; the last of equal entries counts. -/
def entryData? (entries : List ArchiveEntry) (name : Bytes) : Option Bytes :=
  (entries.reverse.find? fun e => className? e.name = some name).map (·.data)

/-- Opens a class. A directory in place of a class file can be opened and not be read. -/
def fetch (t : FileTree) (name : Bytes) : Source → Result ClassStream
  | .archive _ entries =>
    match entryData? entries name with
    | some data => return { data }
    | none => throw (notFound name)
  | .directory root =>
    let file := Path.join root (name ++ suffix)
    if Path.isDownward name then
      match t.find file with
      | .ok (.file content) => return { data := content.bytes }
      | .ok .directory =>
        return { data := [], readError := some (FileFailure.isDirectory.error "read" file) }
      | .error .notFound => throw (notFound name)
      | .error failure => throw (.load (text "open " ++ file) (failure.error "open" file))
    else throw (notFound name)

/-- The files below a root; a root that has become a file stands for itself. -/
def walk (t : FileTree) (root : Bytes) : Except FileFailure (List Bytes) := do
  let place ← t.locate root
  match t.at? place with
  | some (.file _) => return if suffix.isSuffixOf root then [Path.here ++ suffix] else []
  | _ => return (t.filesBelow place).map Path.ofParts

def classes (t : FileTree) : Source → Result (List Bytes)
  | .archive _ entries =>
    return (entries.filterMap fun e => className? e.name).eraseDups.mergeSort Text.le
  | .directory root => do
    let files ← (walk t root).mapError fun failure =>
      .load (text "walk " ++ root) (failure.error "lstat" root)
    return (files.filterMap className?).mergeSort Text.le

end Source
end ClassHeader
