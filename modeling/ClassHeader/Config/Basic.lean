import ClassHeader.Session

/-!
# Configuration

All settings of the program, their defaults, and which values they may have.
-/

namespace ClassHeader

structure Config where
  /-- The file to write, or `-` for standard output. -/
  output : Bytes := text "-"
  edges : Bytes := text "strict"
  /-- Where the class index is kept; empty for none. -/
  indexCache : Bytes := []
  classPath : List Bytes := [text "."]
  verify : Bool := false
  disassemble : Bool := false
  ignoreAttributes : List Bytes := []
  logLevel : Bytes := text "warn"
  logFormat : Bytes := text "console"
  deriving DecidableEq, Repr

namespace Config

def invalid (field : String) (detail : Bytes) : Error := .invalidConfig .config (text field) detail

/-- Levels of logging, in lower case; the empty word stands for one of them. -/
def logLevels : List Bytes :=
  ["debug", "info", "warn", "warning", "error", "dpanic", "panic", "fatal", ""].map text

def checkLogLevel (c : Config) : Result Unit :=
  ensure (Text.lower c.logLevel ∈ logLevels)
    (invalid "log.level" (text "unrecognized level: " ++ Text.quoted c.logLevel))

def validate (c : Config) : Result Unit := do
  ensure (c.classPath ≠ []) (invalid "classpath" (text "at least one entry is required"))
  ensure (¬c.classPath.any Text.isBlank) (invalid "classpath" (text "empty entry"))
  ensure (c.output ≠ []) (invalid "output" (text "use \"-\" for standard output"))
  let _ ← EdgePolicy.parse c.edges
  c.checkLogLevel
  ensure (c.logFormat = text "console" ∨ c.logFormat = text "json")
    (invalid "log.format" (text "must be console or json, got " ++ c.logFormat))

def sessionOptions (c : Config) : Result SessionOptions := do
  let policy ← EdgePolicy.parse c.edges
  return { ignore := c.ignoreAttributes, policy, verify := c.verify, disassemble := c.disassemble }

end Config

/-! ## Settings

Values as they stand in configuration files, and how they are taken as texts,
flags and lists. Values of other types are converted where that makes sense. -/

inductive Setting where
  | null
  | bool (value : Bool)
  | number (written : Bytes)
  | string (value : Bytes)
  | list (items : List Setting)
  | table (fields : List (Bytes × Setting))

namespace Setting

def typeName : Setting → Bytes
  | .null => text "<nil>"
  | .bool _ => text "bool"
  | .number _ => text "float64"
  | .string _ => text "string"
  | .list _ => text "[]interface \x7b\x7d"
  | .table _ => text "map[string]interface \x7b\x7d"

def kindName : Setting → Bytes
  | .list _ => text "slice"
  | .table _ => text "map"
  | s => s.typeName

def complaint (name detail : Bytes) : Bytes := text "'" ++ name ++ text "' " ++ detail

def unconvertible (name : Bytes) (wanted : String) (s : Setting) : Bytes :=
  complaint name (text "expected type '" ++ text wanted ++
    text "', got unconvertible type '" ++ s.typeName ++ text "'")

def asText (name : Bytes) : Setting → Except Bytes Bytes
  | .null => return []
  | .string value => return value
  | .number written => return written
  | .bool value => return text (if value then "1" else "0")
  | s => throw (unconvertible name "string" s)

def flagOf? (word : Bytes) : Option Bool :=
  if word ∈ ["1", "t", "T", "true", "TRUE", "True"].map text then some true
  else if word ∈ ["", "0", "f", "F", "false", "FALSE", "False"].map text then some false
  else none

def asFlag (name : Bytes) : Setting → Except Bytes Bool
  | .null => return false
  | .bool value => return value
  | .number written => return written.any fun b => 49 ≤ b && b ≤ 57
  | .string value =>
    match flagOf? value with
    | some flag => return flag
    | none =>
      throw (complaint name
        (text "cannot parse value as 'bool': strconv.ParseBool: invalid syntax"))
  | s => throw (unconvertible name "bool" s)

def asList (name : Bytes) : Setting → Except Bytes (List Bytes)
  | .null => return []
  | .string value => return if value = [] then [] else Text.splitOn Ascii.comma value
  | .list items =>
    let results := items.zipIdx.map fun (item, i) =>
      item.asText (name ++ text "[" ++ Text.ofNat i ++ text "]")
    match results.filterMap fun r => match r with | .error e => some e | .ok _ => none with
    | [] => return results.filterMap Except.toOption
    | complaints => throw ((text "\n").intercalate complaints)
  | .table [] => return []
  | s => return [← s.asText (name ++ text "[0]")]

def field? (key : Bytes) : Setting → Option Setting
  | .table fields =>
    match fields.reverse.lookup key with
    | some .null => none
    | found => found
  | _ => none

end Setting
end ClassHeader
