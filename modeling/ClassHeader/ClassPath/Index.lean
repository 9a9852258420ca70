import ClassHeader.ClassPath.Source

/-!
# Class indexes

Which archive declares which classes, as of the content that its fingerprint
tells. A record is replaced only when the archive has changed.
-/

namespace ClassHeader

structure IndexRecord where
  path : Bytes
  fingerprint : Bytes
  classes : List Bytes
  deriving DecidableEq, Repr

structure Index where
  path : Bytes
  /-- One record for each archive, oldest first. -/
  records : List IndexRecord := []
  isOpen : Bool := true
  deriving DecidableEq, Repr

namespace Index

def memory : Bytes := text ":memory:"

def failure (x : Index) (action : String) (cause : Error) : Error :=
  .causedBy {
    phase := .load, kind := .invalidData
    detail := text "index " ++ x.path ++ text ": " ++ text action } cause

def ensureOpen (x : Index) (action : String) : Result Unit :=
  ensure x.isOpen (x.failure action (.plain (text "sql: database is closed")))

def fingerprint (digest : Bytes → Bytes) (t : FileTree) (path : Bytes) : Result Bytes := do
  let content ← (t.read path).mapError (.load (text "fingerprint " ++ path))
  return Text.hexDump (digest content.bytes)

def record? (x : Index) (path : Bytes) : Option IndexRecord :=
  x.records.find? (·.path = path)

/-- Records the classes of a source unless its file is recorded as it is; tells whether the index
changed. -/
def refresh (x : Index) (digest : Bytes → Bytes) (t : FileTree) (source : Source) :
    Result (Index × Bool) := do
  let path := source.path
  let sum ← fingerprint digest t path
  x.ensureOpen "query archive"
  if (x.record? path).any (·.fingerprint = sum) then
    return (x, false)
  let classes ← source.classes t
  -- An archive that has changed counts as the newest one.
  let kept := x.records.filter (·.path ≠ path)
  return ({ x with records := kept ++ [{ path, fingerprint := sum, classes }] }, true)

def knows (x : Index) (path : Bytes) : Result Bool := do
  x.ensureOpen "query archive"
  return (x.record? path).isSome

def archivesOf (x : Index) (name : Bytes) : Result (List Bytes) := do
  x.ensureOpen "query classes"
  return (x.records.filter (name ∈ ·.classes)).map (·.path)

def close (x : Index) : Index := { x with isOpen := false }

/-! ## Keeping an index in a file -/

def encode (x : Index) : Bytes :=
  Netstring.encode (x.records.map fun r => Netstring.encode (r.path :: r.fingerprint :: r.classes))

def decodeRecord? (s : Bytes) : Option IndexRecord :=
  match Netstring.decode? s with
  | some (path :: fingerprint :: classes) => some { path, fingerprint, classes }
  | _ => none

/-- The file that a path names. What stands behind a question mark are options and no part of the
name, and the scheme of a locator may stand before it. -/
def fileOf (path : Bytes) : Bytes :=
  let name := if path.head? = some 63 then path else path.takeWhile (· ≠ 63)
  let scheme := text "file:"
  let name := if scheme.isPrefixOf name then name.drop scheme.length else name
  if name = memory then memory else Path.clean name

def load (t : FileTree) (path : Bytes) : Result Index := do
  let bad := fun message => Error.causedBy {
    phase := .load, kind := .invalidData
    detail := text "set pragma on " ++ path } (.plain (text message))
  if fileOf path = memory then
    return { path }
  match t.find (fileOf path) with
  | .error .notFound => return { path }
  | .ok (.file content) =>
    match (Netstring.decode? content.bytes).bind (·.mapM decodeRecord?) with
    | some records => return { path, records }
    | none => throw (bad "file is not a database (26)")
  | _ => throw (bad "unable to open database file: out of memory (14)")

def store (x : Index) (t : FileTree) : FileTree :=
  if fileOf x.path = memory then t
  else match t.write (fileOf x.path) (.data x.encode) false with
    | .ok t => t
    | .error _ => t

end Index
end ClassHeader
