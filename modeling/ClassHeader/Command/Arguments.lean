import ClassHeader.Command.Entry

/-!
# Command lines

The commands of the program with their arguments. The command is found first; then
its flags are read, and then its other arguments are counted.
-/

namespace ClassHeader

/-! ## Help pages

What the program shows about a command: its description, how it is used, the
commands below it and its flags. -/

namespace Arguments

def padRight (width : Nat) (s : Bytes) : Bytes :=
  s ++ List.replicate (width - s.length) Ascii.blank

def lines (s : List Bytes) : Bytes := s.flatMap fun line => line ++ [Ascii.newline]

def Flag.front (flag : Flag) : Bytes :=
  (if flag.letter.isSome then text "  " else text "      ") ++ flag.shown ++
    if flag.isSwitch then [] else if flag.isList then text " strings" else text " string"

def flagLines (flags : List Flag) : List Bytes :=
  let sorted := flags.mergeSort fun a b => Text.le (text a.name) (text b.name)
  let width := (sorted.map (·.front.length)).foldl max 0
  sorted.map fun flag => padRight (width + 3) flag.front ++ text flag.summary

def partLines (parts : List Entry) : List Bytes :=
  let sorted := parts.mergeSort fun a b => Text.le (text a.name) (text b.name)
  sorted.map fun part => text "  " ++ padRight 12 (text part.name) ++ text part.summary

def helpSection (heading : String) (body : List Bytes) : List Bytes :=
  if body = [] then [] else [] :: text heading :: body

def Entry.usage (e : Entry) (extra : List Flag) : Bytes :=
  let call :=
    if e.action.isSome then [text "  " ++ e.fullName ++ text e.operands ++ text " [flags]"] else []
  let partCall := if e.parts = [] then [] else [text "  " ++ e.fullName ++ text " [command]"]
  let (near, far) := if e.path = [] then (sharedFlags, []) else (e.own, sharedFlags)
  lines ([text "Usage:"] ++ call ++ partCall ++
    helpSection "Available Commands:" (partLines e.parts) ++
    helpSection "Flags:" (flagLines (near ++ extra)) ++
    helpSection "Global Flags:" (flagLines far) ++
    if e.parts = [] then [] else [[], text "Use \"" ++ e.fullName ++
      text " [command] --help\" for more information about a command."])

def Entry.help (e : Entry) : Bytes :=
  lines ((if e.description = [] then [e.summary] else e.description).map text) ++ text "\n" ++
    if e.action.isSome || e.parts ≠ [] then e.usage [e.helpFlag] else []

def fitsBackQuotes (s : Bytes) : Bool :=
  (Utf8.runes s).all fun
    | .char c => c = '\t' || (31 < c.toNat && c.toNat ≠ 127 && c.toNat ≠ 96 && c.toNat ≠ 0xFEFF)
    | .stray _ => false

def quotedTopic (s : Bytes) : Bytes :=
  if fitsBackQuotes s then text "`" ++ s ++ text "`" else Text.quoted s

def helpFor (args : List Bytes) : Bytes :=
  match findEntry args with
  | .ok (e, _) => e.help
  | .error _ => text "Unknown help topic [" ++ (text " ").intercalate (args.map quotedTopic) ++
      text "]\n" ++ rootEntry.usage []

end Arguments

/-! ## Commands -/

inductive Command where
  | compile (main : Bytes)
  | graph (main : Bytes)
  | inspect (target : Bytes) (crossCheck disassemble : Bool)
  | explore (main : Bytes)
  | configInit (path : Bytes) (replace : Bool)
  | configShow
  | help (page : Bytes)
  /-- Help that was not asked for by a command of its own. -/
  | usage (page : Bytes)
  deriving DecidableEq, Repr

structure Invocation where
  command : Command
  configFile : Bytes := []
  settings : List (Bytes × Setting) := []

namespace Arguments

def exactlyOne (args : List Bytes) : Result Bytes :=
  match args with
  | [arg] => return arg
  | _ => refuse (text "accepts 1 arg(s), received " ++ Text.ofNat args.length)

def build (given : List Given) (args : List Bytes) : Action → Result Command
  | .compile => return .compile (← exactlyOne args)
  | .graph => return .graph (← exactlyOne args)
  | .inspect =>
    return .inspect (← exactlyOne args) (isSet given "cross-check") (isSet given "disasm")
  | .explore => return .explore (← exactlyOne args)
  | .configInit =>
    match args with
    | [] => return .configInit (text "jaot.toml") (isSet given "force")
    | [path] => return .configInit path (isSet given "force")
    | _ => refuse (text "accepts at most 1 arg(s), received " ++ Text.ofNat args.length)
  | .configShow =>
    match args with
    | [] => return .configShow
    | arg :: _ =>
      refuse (text "unknown command " ++ Text.quoted arg ++ text " for " ++
        Text.quoted configShowEntry.fullName)
  | .help => return .help (helpFor args)

def parse (args : List Bytes) : Result Invocation := do
  let (e, args) ← findEntry args
  let s ← split (e.helpFlag :: e.flags) args.length args
  let command ← match e.action with
    | some action =>
      if isSet s.given "help" then pure (.usage e.help) else build s.given s.others action
    | none => pure (.usage e.help)
  return {
    command
    configFile := (last? s.given "config").getD []
    settings := e.flags.filterMap (settingOf? s.given) }

end Arguments
end ClassHeader
