import ClassHeader.ClassPath.Index

/-!
# Class paths

An ordered list of directories and archives. The first that holds a class wins;
each is opened on first use. An index saves opening archives that cannot hold a
class and never changes which entry wins.
-/

namespace ClassHeader

structure ClassPath where
  entries : List Bytes
  sources : List (Bytes × Source) := []
  index : Option Index := none
  deriving DecidableEq, Repr

/-- Work on a class path. A failure keeps the entries that were opened before it. -/
abbrev ClassPathM := ExceptT Error (StateM ClassPath)

namespace ClassPath

def ofSources (sources : List Source) : ClassPath where
  entries := sources.map Source.path
  sources := (sources.map fun s => (s.path, s)).reverse

def source (t : FileTree) (entry : Bytes) : ClassPathM Source := do
  if let some s := (← get).sources.lookup entry then
    return s
  let s ← MonadExcept.ofExcept (Source.ofPath t entry)
  modify fun cp => { cp with sources := (entry, s) :: cp.sources }
  return s

def isNotFound (e : Error) : Bool := e.fault?.any (·.kind = .notFound)

def scan (t : FileTree) (name : Bytes) : List Bytes → ClassPathM ClassStream
  | [] => throw (Source.notFound name)
  | entry :: rest => do
    let s ← source t entry
    match s.fetch t name with
    | .ok stream => return stream
    | .error e => if isNotFound e then scan t name rest else throw e

/-- Looks a class up in the first entry that the index says to hold it. An entry before it that is
not recorded might hold the class, too, and then nothing is found. -/
def scanIndexed (t : FileTree) (index : Index) (name : Bytes) (holders : List Bytes) :
    List Bytes → ClassPathM ClassStream
  | [] => throw (Source.notFound name)
  | entry :: rest => do
    if entry ∈ holders then
      let s ← source t entry
      MonadExcept.ofExcept (s.fetch t name)
    else
      let known ← MonadExcept.ofExcept (index.knows entry)
      if known then scanIndexed t index name holders rest
      else throw (Source.notFound name)

def fetchIndexed (t : FileTree) (index : Index) (name : Bytes) : ClassPathM ClassStream := do
  let holders ← MonadExcept.ofExcept (index.archivesOf name)
  if holders.isEmpty then throw (Source.notFound name)
  scanIndexed t index name holders (← get).entries

def fetch (t : FileTree) (name : Bytes) : ClassPathM ClassStream := do
  if let some index := (← get).index then
    try
      return ← fetchIndexed t index name
    catch e =>
      -- What the index does not know of may still be found without it.
      if !isNotFound e then throw e
  scan t name (← get).entries

def buildIndexOf (digest : Bytes → Bytes) (t : FileTree) : List Bytes → ClassPathM Unit
  | [] => return
  | entry :: rest => do
    let s ← source t entry
    if let some index := (← get).index then
      if s.isArchive then
        let (index, _) ← MonadExcept.ofExcept (index.refresh digest t s)
        modify fun cp => { cp with index := some index }
    buildIndexOf digest t rest

def buildIndex (digest : Bytes → Bytes) (t : FileTree) : ClassPathM Unit := do
  if (← get).index.isNone then
    throw (.invalidConfig .config (text "index_cache") (text "no index attached"))
  buildIndexOf digest t (← get).entries

def close (cp : ClassPath) : ClassPath := { cp with sources := [] }

def capacity (t : FileTree) : Nat :=
  t.nodes.foldr (fun (_, node) n => match node with
    | .file (.archive entries) => entries.length + n
    | _ => n + 1) 0

/-- The classes of a class path. Each file declares one name, so there are no more classes than
files. -/
def provider (t : FileTree) : Provider (StateM ClassPath) where
  fetch name := (fetch t name).run
  capacity := capacity t

end ClassPath
end ClassHeader
