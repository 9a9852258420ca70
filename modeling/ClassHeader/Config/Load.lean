import ClassHeader.Config.Json
import ClassHeader.Config.Toml
import ClassHeader.Files.Tree

/-!
# Loading a configuration

Each setting is taken from the first place that has it: flags of the command
line, the environment, the configuration file, the defaults.
-/

namespace ClassHeader.Config

def fileName : Bytes := text "jaot"

structure Layers where
  flags : List (Bytes × Setting) := []
  environment : List (Bytes × Bytes) := []
  /-- The settings of the file, under keys in lower case. -/
  file : List (Bytes × Setting) := []

/-! ## Files -/

def lastFields : List (Bytes × Setting) → List (Bytes × Setting)
  | [] => []
  | (key, s) :: rest =>
    if rest.any fun field => field.1 = key then lastFields rest else (key, s) :: lastFields rest

/-- Fields under keys in lower case. A key that is written in another way takes the place of the
key in lower case, wherever the two stand. -/
def joinCases (fields : List (Bytes × Setting)) : List (Bytes × Setting) :=
  let (lower, other) := fields.partition fun field => Text.lower field.1 = field.1
  lastFields (lower ++ other.map fun (key, s) => (Text.lower key, s))

mutual

def lowerKeys : Setting → Setting
  | .table fields => .table (joinCases (lowerValues fields))
  | s => s

def lowerValues : List (Bytes × Setting) → List (Bytes × Setting)
  | [] => []
  | (key, s) :: rest => (key, lowerKeys s) :: lowerValues rest

end

def lowerFields (fields : List (Bytes × Setting)) : List (Bytes × Setting) :=
  joinCases (lowerValues fields)

/-- The key of a field of a table; the fields of a table without a name stand for themselves. -/
def keyIn (table key : Bytes) : Bytes := if table = [] then key else table ++ Ascii.dot :: key

mutual

/-- The keys under which a file gives values. A table is no value, null is. -/
def valueKeys (key : Bytes) : Setting → List Bytes
  | .table fields => fieldKeys key fields
  | _ => [key]

def fieldKeys (table : Bytes) : List (Bytes × Setting) → List Bytes
  | [] => []
  | (key, s) :: rest => valueKeys (keyIn table key) s ++ fieldKeys table rest

end

def unreadable (cause : Bytes) : Error :=
  .causedBy { phase := .config, kind := .invalidConfig, detail := text "read config" }
    (.plain cause)

def endings : List Bytes :=
  ["json", "toml", "yaml", "yml", "properties", "props", "prop", "hcl", "tfvars", "dotenv", "env",
    "ini"].map text

def readers : List (Bytes × (Bytes → Except Bytes (List (Bytes × Setting)))) :=
  [(text "json", readJson), (text "toml", Toml.parse)]

def readFile (t : FileTree) (path : Bytes) : Result (List (Bytes × Setting)) := do
  let ending := Path.extension path
  ensure (ending ∈ endings)
    (unreadable (text "Unsupported Config Type " ++ Text.quoted ending))
  let content ← (t.read path).mapError fun e => unreadable e.message
  let some reader := readers.lookup ending
    | throw (unreadable (text "While parsing config: decoder not found for this format"))
  let fields ← (reader content.bytes).mapError fun e =>
    unreadable (text "While parsing config: " ++ e)
  return lowerFields fields

def standardFile? (t : FileTree) : Option Bytes :=
  (readers.map fun (ending, _) => fileName ++ Ascii.dot :: ending).find? fun path =>
    match t.find path with
    | .ok (.file _) => true
    | _ => false

/-- The settings of the file at a path; an empty path stands for the file of the working
directory, which may be absent. -/
def readSettings (t : FileTree) (path : Bytes) : Result (List (Bytes × Setting)) :=
  if path ≠ [] then readFile t path
  else match standardFile? t with
    | some path => readFile t path
    | none => return []

/-! ## Layers -/

def variableName (key : Bytes) : Bytes :=
  text "JAOT_" ++ Text.asciiUpper (Text.replace Ascii.dot Ascii.underscore key)

def variableNames : List Bytes :=
  ["output", "edges", "index_cache", "classpath", "verify", "disassemble", "resolver",
    "resolver.ignore_attributes", "log", "log.level", "log.format"].map fun key =>
    variableName (text key)

/-- The value of a variable; empty variables count as unset. -/
def environmentValue? (l : Layers) (key : Bytes) : Option Setting :=
  match l.environment.lookup (variableName key) with
  | some [] | none => none
  | some value => some (.string value)

/-- The setting of a key of a table in a file, which may be written as one key with a dot. -/
def fileValue? (l : Layers) (key : Bytes) : Option Setting :=
  let whole := Setting.table l.file
  match whole.field? key, Text.splitLast? Ascii.dot key with
  | some s, _ => some s
  | none, some (table, name) => (whole.field? table).bind (Setting.field? name)
  | none, none => none

/-- The setting of a key, or its default. A variable for a whole table hides the file and the
defaults of the table. -/
def Layers.find (l : Layers) (key : Bytes) (default : Setting) : Setting :=
  let hidden := match Text.splitLast? Ascii.dot key with
    | some (table, _) => (environmentValue? l table).isSome
    | none => false
  match l.flags.lookup key, environmentValue? l key with
  | some s, _ | none, some s => s
  | none, none => if hidden then .null else (fileValue? l key).getD default

/-- The settings of a table. Where a file gives the table itself a value, that value is looked up
in place of its fields: variables for the fields do not count then, and null leaves all fields at
their defaults. -/
def Layers.findTable (l : Layers) (name : Bytes) (defaults : List (Bytes × Setting)) : Setting :=
  if name ∈ fieldKeys [] l.file then
    match l.find name (.table defaults) with
    | .table fields =>
      .table (fields ++ defaults.filterMap fun (key, _) =>
        (l.flags.lookup (keyIn name key)).map fun s => (key, s))
    | s => s
  else .table (defaults.map fun (key, s) => (key, l.find (keyIn name key) s))

def undecodable (complaints : List Bytes) : Error :=
  .causedBy { phase := .config, kind := .invalidConfig, detail := text "decode config" }
    (.plain (text "decoding failed due to the following error(s):\n\n" ++
      (text "\n").intercalate complaints))

def complaintOf {α : Type} : Except Bytes α → List Bytes
  | .ok _ => []
  | .error e => [e]

def tableComplaint (name : Bytes) : Setting → List Bytes
  | .table _ => []
  | s => [Setting.complaint name
      (text "expected a map or struct, got \"" ++ s.kindName ++ text "\"")]

def ofLayers (l : Layers) : Result Config := do
  let d : Config := {}
  let listSetting := fun (items : List Bytes) => Setting.list (items.map .string)
  let textOf := fun (key : String) (default : Bytes) =>
    (l.find (text key) (.string default)).asText (text key)
  let flagOf := fun (key : String) => (l.find (text key) (.bool false)).asFlag (text key)
  let output := textOf "output" d.output
  let edges := textOf "edges" d.edges
  let indexCache := textOf "index_cache" d.indexCache
  let classPath := (l.find (text "classpath") (listSetting d.classPath)).asList (text "classpath")
  let verify := flagOf "verify"
  let disassemble := flagOf "disassemble"
  let resolver := l.findTable (text "resolver")
    [(text "ignore_attributes", listSetting d.ignoreAttributes)]
  let ignore := ((resolver.field? (text "ignore_attributes")).getD .null).asList
    (text "resolver.ignore_attributes")
  let log := l.findTable (text "log")
    [(text "level", .string d.logLevel), (text "format", .string d.logFormat)]
  let level := ((log.field? (text "level")).getD .null).asText (text "log.level")
  let format := ((log.field? (text "format")).getD .null).asText (text "log.format")
  let complaints := complaintOf output ++ complaintOf edges ++ complaintOf indexCache ++
    complaintOf classPath ++ complaintOf verify ++ complaintOf disassemble ++
    tableComplaint (text "resolver") resolver ++ complaintOf ignore ++
    tableComplaint (text "log") log ++ complaintOf level ++ complaintOf format
  ensure (complaints = []) (undecodable complaints)
  return {
    output := output.toOption.getD [], edges := edges.toOption.getD []
    indexCache := indexCache.toOption.getD [], classPath := classPath.toOption.getD []
    verify := verify.toOption.getD false, disassemble := disassemble.toOption.getD false
    ignoreAttributes := ignore.toOption.getD []
    logLevel := level.toOption.getD [], logFormat := format.toOption.getD [] }

def read (t : FileTree) (environment : List (Bytes × Bytes)) (flags : List (Bytes × Setting))
    (path : Bytes) : Result Config := do
  let file ← readSettings t path
  ofLayers { flags, environment, file }

def writeFile (content : Bytes) (t : FileTree) (path : Bytes) (replace : Bool) :
    Result FileTree :=
  (t.write path (.data content) (!replace)).mapError fun
    | .alreadyExists => invalid "path" (path ++ text " already exists")
    | failure => .causedBy {
        phase := .config, kind := .invalidConfig, detail := text "write " ++ path }
        (failure.error "open" path)

end ClassHeader.Config
