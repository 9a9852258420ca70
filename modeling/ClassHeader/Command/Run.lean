import ClassHeader.ClassPath.Basic
import ClassHeader.Command.Arguments
import ClassHeader.Config.Load
import ClassHeader.CrossCheck
import ClassHeader.Digest.Blake2b
import ClassHeader.Resolve.Class

/-!
# Running commands

What each command does to the files of the working directory and what it prints.
A command that fails keeps what it did before. The libraries that commands rest on
are parameters, and there is one of each to run the program with.
-/

namespace ClassHeader

/-- Keeps class indexes in files. Opening an index may change files as well. -/
structure Database where
  load : FileTree → Bytes → Result Index × FileTree
  store : Index → FileTree → FileTree

def Database.records : Database where
  load t path := (Index.load t path, t)
  store := Index.store

structure Surroundings where
  environment : List (Bytes × Bytes) := []
  arguments : List Bytes → Result Invocation := Arguments.parse
  /-- Reads what a file, the environment and flags say on the configuration. -/
  settings : FileTree → List (Bytes × Bytes) → List (Bytes × Setting) → Bytes → Result Config :=
    Config.read
  encoding : Config → Bytes := Config.encode
  database : Database := .records
  digest : Bytes → Bytes := Blake2b.digest
  parser : Option Cpp.TreeParser := none
  /-- The parser that decoded classes are compared with. -/
  reference : Bytes → Result CrossCheck.Reading := CrossCheck.Reading.ofData

def Surroundings.load (around : Surroundings) (t : FileTree) (call : Invocation) :
    Result Config := do
  let config ← around.settings t around.environment call.settings call.configFile
  config.validate
  return config

structure World where
  files : FileTree := {}
  stdout : Bytes := []

abbrev CommandM := ExceptT Error (StateM World)

namespace Command

def binaryName (arg : Bytes) : Bytes :=
  Text.replace Ascii.dot Ascii.slash (Text.dropTail Source.suffix arg)

def print (s : Bytes) : CommandM Unit := modify fun w => { w with stdout := w.stdout ++ s }

def files : CommandM FileTree := return (← get).files

def ofResult {α : Type} (r : Result α) : CommandM α := MonadExcept.ofExcept r

def makeIndexDirectory (path : Bytes) : CommandM Unit := do
  let directory := Path.directory path
  if directory ≠ Path.here then
    let t ← ofResult <| ((← files).makeDirectories directory).mapError (.causedBy {
      phase := .config, kind := .invalidConfig, detail := text "create index directory" })
    modify fun w => { w with files := t }

def loadIndex (around : Surroundings) (path : Bytes) : CommandM Index := do
  let (loaded, t) := around.database.load (← files) path
  modify fun w => { w with files := t }
  ofResult loaded

/-- The class path of a configuration, with its index brought up to date. What could be recorded
is kept even if an entry fails. -/
def openClassPath (around : Surroundings) (config : Config) : CommandM ClassPath := do
  let path : ClassPath := { entries := config.classPath }
  if config.indexCache = [] then
    return path
  makeIndexDirectory config.indexCache
  let index ← loadIndex around config.indexCache
  let (built, path) := (ClassPath.buildIndex around.digest (← files)).run.run
    { path with index := some index }
  modify fun w => { w with files := around.database.store (path.index.getD index) w.files }
  ofResult built
  return path

def inSession {α : Type} (path : ClassPath)
    (action : Provider (StateM ClassPath) → SessionM (StateM ClassPath) α) : CommandM α := do
  let provider := ClassPath.provider (← files)
  ofResult (((action provider).run.run {}).run path).1.1

def compileTo (around : Surroundings) (config : Config) (main : Bytes) : CommandM Unit := do
  let options ← ofResult config.sessionOptions
  let path ← openClassPath around config
  let done ← inSession path fun provider =>
    Session.compile { options with parser := around.parser } provider (binaryName main)
  if config.output = text "-" then
    print done.source
  else
    let t ← ofResult <| ((← files).write config.output (.data done.source) false).mapError
      fun failure => .causedBy {
        phase := .codegen, kind := .invalidInput, detail := text "write " ++ config.output }
        (failure.error "open" config.output)
    modify fun w => { w with files := t }

def printGraph (around : Surroundings) (config : Config) (main : Bytes) : CommandM Unit := do
  let options ← ofResult config.sessionOptions
  let path ← openClassPath around config
  let graph ← inSession path fun provider => Session.collect options provider (binaryName main)
  print graph.exported.yaml

def readClass (around : Surroundings) (config : Config) (arg : Bytes) : CommandM Bytes := do
  match (← files).find arg with
  | .ok (.file content) => return content.bytes
  | _ =>
    let path ← openClassPath around config
    let stream ← ofResult
      ((ClassPath.fetch (← files) (binaryName arg)).run.run path).1
    match stream.readError with
    | some e => throw (.load (text "read " ++ arg) e)
    | none => return stream.data

/-- Prints the listing of a class, and only then compares its decoding. -/
def inspectClass (around : Surroundings) (config : Config) (arg : Bytes)
    (crossCheck disassemble : Bool) : CommandM Unit := do
  let data ← readClass around config arg
  let c ← ofResult (ClassFile.decodeValid data)
  let options ← ofResult config.sessionOptions
  let resolved ← ofResult (Resolver.resolve ⟨options.ignore⟩ c)
  print (resolved.listing disassemble)
  if crossCheck then
    ofResult (CrossCheck.compare (around.reference data) (some c))
    print (text "cross-check: ok\n")

def runConfigured (around : Surroundings) (config : Config) : Command → CommandM Unit
  | .compile main => compileTo around config main
  | .graph main => printGraph around config main
  | .inspect target crossCheck disassemble =>
    inspectClass around config target crossCheck disassemble
  | .explore _ =>
    throw (.invalidInput .config (text "explore needs an interactive terminal"))
  | .configShow => print (around.encoding config)
  | .help page | .usage page => print page
  | .configInit _ _ => return

def run (around : Surroundings) (args : List Bytes) : CommandM Unit := do
  let call ← ofResult (around.arguments args)
  match call.command with
  | .configInit path replace =>
    let t ← ofResult (Config.writeFile (around.encoding {}) (← files) path replace)
    modify fun w => { w with files := t }
    print (text "wrote " ++ path ++ text "\n")
  | .usage page => print page
  | command =>
    let config ← ofResult (around.load (← files) call)
    runConfigured around config command

end Command
end ClassHeader
