import ClassHeader.Config.Basic
import ClassHeader.Text.Csv

/-!
# Flags

What flags look like among the arguments of a command, and which values they
take. Flags may stand before and behind the other arguments; a double dash ends
them.
-/

namespace ClassHeader.Arguments

structure Flag where
  name : String
  letter : Option UInt8 := none
  summary : String
  /-- Switches take a value only behind an equals sign. -/
  isSwitch : Bool := false
  isList : Bool := false
  key : Option String := none

structure Given where
  flag : Flag
  value : Bytes

structure Split where
  given : List Given := []
  others : List Bytes := []

def refuse {α : Type} (message : Bytes) : Result α := throw (.plain message)

def equals : UInt8 := 61

def splitEquals (s : Bytes) : Bytes × Option Bytes :=
  match s.dropWhile (· ≠ equals) with
  | _ :: value => (s.takeWhile (· ≠ equals), some value)
  | [] => (s, none)

def isLong (arg : Bytes) : Bool := (text "--").isPrefixOf arg

def isShort (arg : Bytes) : Bool := arg.head? = some Ascii.minus && arg.length ≠ 1

/-! ## Values -/

def Flag.shown (flag : Flag) : Bytes :=
  (match flag.letter with
    | some letter => [Ascii.minus, letter] ++ text ", "
    | none => []) ++ text "--" ++ text flag.name

def valueProblem? (flag : Flag) (value : Bytes) : Option Bytes :=
  if flag.isSwitch then
    if value ≠ [] ∧ (Setting.flagOf? value).isSome then none
    else some (text "strconv.ParseBool: parsing " ++ Text.quoted value ++ text ": invalid syntax")
  else if flag.isList then
    match Csv.fields value with
    | .ok _ => none
    | .error problem => some problem.message
  else none

def give (flag : Flag) (value : Bytes) : Result Given :=
  match valueProblem? flag value with
  | none => return { flag, value }
  | some problem =>
    refuse (text "invalid argument " ++ Text.quoted value ++ text " for " ++
      Text.quoted flag.shown ++ text " flag: " ++ problem)

/-! ## Forms -/

def long (flags : List Flag) (arg : Bytes) (rest : List Bytes) : Result (Given × List Bytes) := do
  let (name, value?) := splitEquals (arg.drop 2)
  if name = [] ∨ name.head? = some Ascii.minus then refuse (text "bad flag syntax: " ++ arg)
  let some flag := flags.find? (text ·.name = name) | refuse (text "unknown flag: --" ++ name)
  match value?, flag.isSwitch, rest with
  | some value, _, _ => return (← give flag value, rest)
  | none, true, _ => return (← give flag (text "true"), rest)
  | none, false, value :: rest => return (← give flag value, rest)
  | none, false, [] => refuse (text "flag needs an argument: --" ++ name)

/-- A letter in messages. Beyond ASCII, it is the first byte of its encoding that is shown. -/
def quotedLetter (letter : UInt8) : Bytes :=
  Text.quotedByte ((Text.ofChars [Char.ofNat letter.toNat]).headD letter)

/-- Flags by their letters, and the arguments behind them. Switches may stand in a row; any other
flag takes what follows its letter as its value, or else the next argument. Letters that start
with `test.` are left to others. -/
def short (flags : List Flag) (rest : List Bytes) : Bytes → Result (List Given × List Bytes)
  | [] => return ([], rest)
  | letter :: behind => do
    let shown := quotedLetter letter ++ text " in -" ++ letter :: behind
    if (text "test.").isPrefixOf (letter :: behind) then return ([], rest)
    let some flag := flags.find? (·.letter = some letter)
      | refuse (text "unknown shorthand flag: " ++ shown)
    match behind, flag.isSwitch, rest with
    | 61 :: b :: value, _, _ => return ([← give flag (b :: value)], rest)
    | _, true, _ => do
      let first ← give flag (text "true")
      let (given, rest) ← short flags rest behind
      return (first :: given, rest)
    | b :: value, false, _ => return ([← give flag (b :: value)], rest)
    | [], false, value :: rest => return ([← give flag value], rest)
    | [], false, [] => refuse (text "flag needs an argument: " ++ shown)

/-- Divides arguments into flags and others. Each step takes an argument, so their number is fuel
enough. -/
def split (flags : List Flag) : (fuel : Nat) → List Bytes → Result Split
  | 0, _ | _, [] => return {}
  | fuel + 1, arg :: rest =>
    if arg = text "--" then return { others := rest }
    else if isLong arg then do
      let (given, rest) ← long flags arg rest
      let s ← split flags fuel rest
      return { s with given := given :: s.given }
    else if isShort arg then do
      let (given, rest) ← short flags rest (arg.drop 1)
      let s ← split flags fuel rest
      return { s with given := given ++ s.given }
    else do
      let s ← split flags fuel rest
      return { s with others := arg :: s.others }

/-! ## What was given -/

def valuesOf (given : List Given) (name : String) : List Bytes :=
  (given.filter (·.flag.name = name)).map (·.value)

def last? (given : List Given) (name : String) : Option Bytes := (valuesOf given name).getLast?

def isSet (given : List Given) (name : String) : Bool :=
  ((last? given name).bind Setting.flagOf?).getD false

def itemsOf (s : Bytes) : List Bytes := (Csv.fields s).toOption.getD []

/-- The items of all values together. A setting is handed on as text, so it holds what is read
back: a single empty item is lost. -/
def itemsOfAll (values : List Bytes) : List Bytes :=
  itemsOf (Csv.write (values.flatMap itemsOf))

def settingOf? (given : List Given) (flag : Flag) : Option (Bytes × Setting) := do
  let key ← flag.key
  let value ← last? given flag.name
  let setting := if flag.isList then
    .list ((itemsOfAll (valuesOf given flag.name)).map .string)
    else .string value
  return (text key, setting)

end ClassHeader.Arguments
