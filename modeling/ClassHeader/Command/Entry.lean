import ClassHeader.Command.Flags
import ClassHeader.Text.LowerCase

/-!
# The table of commands

All commands with their flags and descriptions, and how a command is found among
arguments. Flags may stand before the name of a command, when it is not known yet
whether they take a value. There, a flag that the commands so far do not know to
be a switch takes the next argument with it.
-/

namespace ClassHeader.Arguments

/-- What commands do; commands without an action show their help. -/
inductive Action where
  | compile
  | graph
  | inspect
  | explore
  | configInit
  | configShow
  | help
  deriving DecidableEq, Repr

structure Entry where
  path : List String
  operands : String := ""
  action : Option Action := none
  summary : String := ""
  description : List String := []
  own : List Flag := []

def program : String := "jaot"

def Entry.name (e : Entry) : String := e.path.getLastD program

def Entry.fullName (e : Entry) : Bytes := (text " ").intercalate ((program :: e.path).map text)

def sharedFlags : List Flag :=
  [{ name := "config", summary := "config file (default ./jaot.toml, .yaml or .json)" },
    { name := "classpath", letter := some 99, isList := true, key := some "classpath"
      summary := "class path entries: jar files and directories" },
    { name := "edges", key := some "edges"
      summary := "edge policy: strict (default) or structural" },
    { name := "index-cache", key := some "index_cache"
      summary := "sqlite file remembering which jar declares each class" },
    { name := "log-level", key := some "log.level"
      summary := "log level: debug, info, warn or error" },
    { name := "log-format", key := some "log.format"
      summary := "log format: console or json" }]

def Entry.helpFlag (e : Entry) : Flag :=
  { name := "help", letter := some 104, isSwitch := true, summary := "help for " ++ e.name }

def Entry.flags (e : Entry) : List Flag := e.own ++ sharedFlags

/-! ## Commands -/

def rootEntry : Entry :=
  { path := []
    description := [
      "jaot reads a main class and everything it reaches from a class path of",
      "jar files and directories, orders the classes so that every superclass and",
      "interface precedes its subclasses, and emits a single C++ header declaring",
      "them all."] }

def compileEntry : Entry :=
  { path := ["compile"], operands := " <main-class>", action := some .compile
    summary := "Emit C++ declarations for a main class and its dependencies"
    description := [
      "Compile collects every class reachable from the main class, orders them",
      "and writes one C++ header. Nothing is written when any class fails.",
      "",
      "Examples:",
      "  jaot compile -c app.jar -c rt.jar com.example.Main",
      "  jaot compile -c build/classes com/example/Main -o main.hpp --verify"]
    own := [
      { name := "output", letter := some 111, key := some "output"
        summary := "output file, \"-\" for standard output" },
      { name := "verify", isSwitch := true, key := some "verify"
        summary := "parse the generated source and fail on syntax errors" },
      { name := "disassemble", isSwitch := true, key := some "disassemble"
        summary := "include method instructions as comments" }] }

def configEntry : Entry :=
  { path := ["config"], summary := "Manage jaot configuration" }

def configInitEntry : Entry :=
  { path := ["config", "init"], operands := " [path]", action := some .configInit
    summary := "Write the default configuration"
    description := [
      "Write the default configuration as TOML, to ./jaot.toml unless a path is",
      "given. An existing file is kept unless --force is set."]
    own := [{ name := "force", isSwitch := true, summary := "overwrite an existing file" }] }

def configShowEntry : Entry :=
  { path := ["config", "show"], action := some .configShow
    summary := "Print the effective configuration" }

def exploreEntry : Entry :=
  { path := ["explore"], operands := " <main-class>", action := some .explore
    summary := "Browse the dependency graph interactively"
    description := [
      "Explore collects the classes reachable from the main class and opens a",
      "terminal browser listing them in emission order. Select a class to see its",
      "edges, its dependents and its members."] }

def graphEntry : Entry :=
  { path := ["graph"], operands := " <main-class>", action := some .graph
    summary := "Print the dependency graph of a main class as YAML"
    description := [
      "Graph lists every class reachable from the main class, each edge with its",
      "kind (HARD or SOFT) and the emission order. When the HARD edges form a cycle",
      "the order is replaced by the classes on the cycle."] }

def inspectEntry : Entry :=
  { path := ["inspect"], operands := " <file.class | class-name>", action := some .inspect
    summary := "Describe one class file"
    description := [
      "Inspect decodes and resolves a single class and prints its header, fields",
      "and methods. The argument is a .class file on disk or a class name looked up on",
      "the class path.",
      "",
      "Examples:",
      "  jaot inspect build/classes/com/example/Main.class --disasm",
      "  jaot inspect -c rt.jar java.lang.String --cross-check"]
    own := [
      { name := "cross-check", isSwitch := true
        summary := "compare the decoding with an independent parser" },
      { name := "disasm", isSwitch := true, summary := "list method instructions" }] }

def helpEntry : Entry :=
  { path := ["help"], operands := " [command]", action := some .help
    summary := "Help about any command"
    description := [
      "Help provides help for any command in the application.",
      "Simply type jaot help [path to command] for full details."] }

def completionEntry : Entry :=
  { path := ["completion"]
    summary := "Generate the autocompletion script for the specified shell"
    description := [
      "Generate the autocompletion script for jaot for the specified shell.",
      "See each sub-command's help for details on how to use the generated script."] }

/-- The command of a shell. There is no script to print, so it has no action. -/
def shellEntry (shell : String) : Entry :=
  { path := ["completion", shell]
    summary := "Generate the autocompletion script for " ++ shell }

def entries : List Entry :=
  [compileEntry, configEntry, configInitEntry, configShowEntry, exploreEntry, graphEntry,
    inspectEntry, helpEntry, completionEntry] ++
    ["bash", "fish", "powershell", "zsh"].map shellEntry

def Entry.parts (e : Entry) : List Entry := entries.filter fun part =>
  part.path = e.path ++ [part.name]

/-! ## Finding a command -/

def takesNext (flags : List Flag) (arg : Bytes) : Bool :=
  !arg.contains equals &&
    if isLong arg then !flags.any fun flag => flag.isSwitch && text flag.name = arg.drop 2
    else isShort arg && arg.length = 2 &&
      !flags.any fun flag => flag.isSwitch && flag.letter = arg.getLast?

/-- The arguments that are neither flags nor values of flags. A flag with a value ends the search
when there is at most one argument behind it. -/
def words (flags : List Flag) : List Bytes → List Bytes
  | [] => []
  | [arg] => if arg = [] || arg.head? = some Ascii.minus then [] else [arg]
  | arg :: next :: rest =>
    if arg = text "--" then []
    else if takesNext flags arg then
      if rest = [] then [] else words flags rest
    else if arg = [] || arg.head? = some Ascii.minus then words flags (next :: rest)
    else arg :: words flags (next :: rest)

def dropWord (flags : List Flag) (word : Bytes) : List Bytes → List Bytes
  | [] => []
  | [arg] => if arg = word then [] else [arg]
  | arg :: next :: rest =>
    if arg = text "--" then arg :: next :: rest
    else if takesNext flags arg then arg :: next :: dropWord flags word rest
    else if arg = word then next :: rest
    else arg :: dropWord flags word (next :: rest)

/-- The command below `e` that arguments name, and the arguments left for it. Each step takes a
word from the arguments, so their number is fuel enough. -/
def findFrom : (fuel : Nat) → Entry → List Bytes → Entry × List Bytes
  | 0, e, args => (e, args)
  | fuel + 1, e, args =>
    match words e.flags args with
    | [] => (e, args)
    | word :: _ =>
      match e.parts.find? (text ·.name = word) with
      | some part => findFrom fuel part (dropWord e.flags word args)
      | none => (e, args)

/-! ## Similar words

The number of single bytes to add, to take away or to change that lead from one word
to another, computed row by row: a row holds the distances of one front part of the
first word from all front parts of the second. -/

/-- The rest of the next row: `left` is the distance found last, and the old row starts with the
distance diagonally before the next one. -/
def extendRow (c : UInt8) : (left : Nat) → Bytes → List Nat → List Nat
  | left, b :: t, diagonal :: above :: row =>
    let here := if c = b then diagonal else min left (min above diagonal) + 1
    here :: extendRow c here t (above :: row)
  | _, _, _ => []

def nextRow (t : Bytes) (row : List Nat) (c : UInt8) : List Nat :=
  let left := row.headD 0 + 1
  left :: extendRow c left t row

def editDistance (s t : Bytes) : Nat :=
  (s.foldl (nextRow t) (List.range (t.length + 1))).getLastD 0

/-- Whether a name may have been meant by a word: it continues the word, or at most two bytes
differ. Case does not matter. -/
def isSimilar (word name : Bytes) : Bool :=
  editDistance (Text.lower word) (Text.lower name) ≤ 2 ||
    (Text.lower word).isPrefixOf (Text.lower name)

example : editDistance (text "kitten") (text "sitting") = 3 := by decide +kernel

def similar (word : Bytes) : List Entry :=
  rootEntry.parts.filter fun part =>
    part.action ≠ some .help && isSimilar word (text part.name)

def unknownCommand (word : Bytes) : Bytes :=
  text "unknown command " ++ Text.quoted word ++ text " for " ++ Text.quoted rootEntry.fullName ++
    match similar word with
    | [] => []
    | found => text "\n\nDid you mean this?\n" ++
      found.flatMap fun part => text "\t" ++ text part.name ++ text "\n"

def findEntry (args : List Bytes) : Result (Entry × List Bytes) := do
  let (e, rest) := findFrom args.length rootEntry args
  match e.path, words e.flags rest with
  | [], word :: _ => refuse (unknownCommand word)
  | _, _ => return (e, rest)

end ClassHeader.Arguments
