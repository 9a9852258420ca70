import ClassHeader.Text.Quoted

/-!
# Errors

Every stage reports failures as faults: the phase that failed, the kind of
failure, the class and the place inside it, and a detail. A fault may have a
cause, and plain messages of readers and file access stand as causes under
faults. All wording that several stages share is fixed here.
-/

namespace ClassHeader

inductive Phase where
  | decode
  | descriptor
  | bytecode
  | resolve
  | collect
  | codegen
  | load
  | config
  | other (name : Bytes)
  deriving DecidableEq, Repr

def Phase.name : Phase → Bytes
  | .decode => text "decode"
  | .descriptor => text "descriptor"
  | .bytecode => text "bytecode"
  | .resolve => text "resolve"
  | .collect => text "collect"
  | .codegen => text "codegen"
  | .load => text "load"
  | .config => text "config"
  | .other name => name

inductive Kind where
  | invalidData
  | dataSize
  | unknownTag
  | notClassFile
  | unsupported
  | outOfBounds
  | nilPointer
  | typeMismatch
  | notFound
  | cycle
  | invalidInput
  | invalidConfig
  | other (name : Bytes)
  deriving DecidableEq, Repr

def Kind.name : Kind → Bytes
  | .invalidData => text "invalid_data"
  | .dataSize => text "data_size"
  | .unknownTag => text "unknown_tag"
  | .notClassFile => text "not_class_file"
  | .unsupported => text "unsupported"
  | .outOfBounds => text "out_of_bounds"
  | .nilPointer => text "nil_pointer"
  | .typeMismatch => text "type_mismatch"
  | .notFound => text "not_found"
  | .cycle => text "cycle"
  | .invalidInput => text "invalid_input"
  | .invalidConfig => text "invalid_config"
  | .other name => name

namespace Phase

def all : List Phase :=
  [.decode, .descriptor, .bytecode, .resolve, .collect, .codegen, .load, .config]

def ofName (name : Bytes) : Phase :=
  (all.find? (·.name = name)).getD (.other name)

end Phase

namespace Kind

def all : List Kind :=
  [.invalidData, .dataSize, .unknownTag, .notClassFile, .unsupported, .outOfBounds, .nilPointer,
    .typeMismatch, .notFound, .cycle, .invalidInput, .invalidConfig]

def ofName (name : Bytes) : Kind :=
  (all.find? (·.name = name)).getD (.other name)

end Kind

inductive Category where
  | format
  | unsupported
  | lookup
  | configuration
  | unclassified
  deriving DecidableEq, Repr

def Category.name : Category → Bytes
  | .format => text "format"
  | .unsupported => text "unsupported"
  | .lookup => text "lookup"
  | .configuration => text "configuration"
  | .unclassified => text "error"

def Kind.category : Kind → Category
  | .invalidData | .dataSize | .unknownTag | .notClassFile | .typeMismatch | .cycle => .format
  | .unsupported => .unsupported
  | .outOfBounds | .nilPointer | .notFound => .lookup
  | .invalidConfig | .invalidInput => .configuration
  | .other _ => .unclassified

structure Fault where
  phase : Phase
  kind : Kind
  /-- The class at fault; empty while it is not known. -/
  className : Bytes := []
  path : List Bytes := []
  detail : Bytes := []
  /-- The members of a dependency cycle, the first repeated at the end. -/
  members : List Bytes := []
  deriving DecidableEq, Repr

inductive Error where
  | plain (message : Bytes)
  /-- A message that already quotes its cause: what is learnt about the cause later does not
  change it. -/
  | wrapped (message : Bytes) (cause : Error)
  | parse (part : Bytes) (position : Nat) (cause : Error)
  | fault (fault : Fault)
  | causedBy (fault : Fault) (cause : Error)
  deriving DecidableEq, Repr

abbrev Result (α : Type) := Except Error α

/-- The fault without a cause: phase, kind, class, place and detail, each only if present. -/
def Fault.message (f : Fault) : Bytes :=
  text "[" ++ f.phase.name ++ text "] " ++ f.kind.name ++
    (if f.className = [] then [] else text " in " ++ f.className) ++
    (if f.path = [] then [] else text " at " ++ (text ".").intercalate f.path) ++
    (if f.detail = [] then [] else text ": " ++ f.detail)

namespace Error

def message : Error → Bytes
  | .plain message => message
  | .wrapped message _ => message
  | .parse part position cause =>
    text "classfile: " ++ (if part = [] then [] else part ++ text " ") ++
      text "at position " ++ Text.ofNat position ++ text ": " ++ cause.message
  | .fault f => f.message
  | .causedBy f cause => f.message ++ text " (caused by: " ++ cause.message ++ text ")"

def cause? : Error → Option Error
  | .plain _ | .fault _ => none
  | .wrapped _ cause | .parse _ _ cause | .causedBy _ cause => some cause

def fault? : Error → Option Fault
  | .plain _ => none
  | .fault f | .causedBy f _ => some f
  | .wrapped _ cause | .parse _ _ cause => cause.fault?

def faults : Error → List Fault
  | .plain _ => []
  | .fault f => [f]
  | .causedBy f cause => f :: cause.faults
  | .wrapped _ cause | .parse _ _ cause => cause.faults

def category (e : Error) : Category :=
  match e.fault? with
  | some f => f.kind.category
  | none => .unclassified

def has (phase : Phase) (kind : Kind) (e : Error) : Bool :=
  e.faults.any fun f => f.phase = phase && f.kind = kind

def mapFault (change : Fault → Fault) : Error → Error
  | .plain message => .plain message
  | .fault f => .fault (change f)
  | .causedBy f cause => .causedBy (change f) cause
  | .wrapped message cause => .wrapped message (cause.mapFault change)
  | .parse part position cause => .parse part position (cause.mapFault change)

/-- Names the class at fault unless the outermost fault already names one. An error without any
fault becomes the cause of a fault of the given phase. -/
def withClass (phase : Phase) (name : Bytes) (e : Error) : Error :=
  match e.fault? with
  | some _ => e.mapFault fun f => if f.className = [] then { f with className := name } else f
  | none => .causedBy { phase, kind := .invalidData, className := name } e

def context (message : Bytes) (cause : Error) : Error :=
  .wrapped (message ++ text ": " ++ cause.message) cause

/-! ## Shared wording -/

def invalidData (phase : Phase) (path : List Bytes) (detail : Bytes) : Error :=
  .fault { phase, kind := .invalidData, path, detail }

def dataSize (phase : Phase) (what : Bytes) (want got : Int) : Error :=
  .fault {
    phase, kind := .dataSize
    detail := text "incorrect data size for " ++ what ++ text ": want " ++ Text.ofInt want ++
      text " bytes, got " ++ Text.ofInt got }

def unsupported (phase : Phase) (what : Bytes) : Error :=
  .fault { phase, kind := .unsupported, detail := what }

def outOfBounds (phase : Phase) (path : List Bytes) (index length : Int) : Error :=
  .fault {
    phase, kind := .outOfBounds, path
    detail := text "index " ++ Text.ofInt index ++ text " out of bounds (length " ++
      Text.ofInt length ++ text ")" }

def nilPointer (phase : Phase) (path : List Bytes) (what : Bytes) : Error :=
  .fault { phase, kind := .nilPointer, path, detail := what ++ text " is empty" }

def typeMismatch (phase : Phase) (path : List Bytes) (want got : Bytes) : Error :=
  .fault {
    phase, kind := .typeMismatch, path
    detail := text "expected " ++ want ++ text ", got " ++ got }

def notFound (phase : Phase) (what name : Bytes) : Error :=
  .fault {
    phase, kind := .notFound
    detail := what ++ text " " ++ Text.quoted name ++ text " not found" }

def cycle (phase : Phase) (members : List Bytes) : Error :=
  .fault {
    phase, kind := .cycle, members
    detail := text "cycle: " ++ (text " -> ").intercalate members }

def invalidInput (phase : Phase) (detail : Bytes) : Error :=
  .fault { phase, kind := .invalidInput, detail }

def invalidConfig (phase : Phase) (field detail : Bytes) : Error :=
  .fault { phase, kind := .invalidConfig, path := [field], detail }

def load (detail : Bytes) (cause : Error) : Error :=
  .causedBy { phase := .load, kind := .invalidData, detail } cause

end Error

def ensure {m : Type → Type} [Monad m] [MonadExcept Error m] (condition : Prop)
    [Decidable condition] (otherwise : Error) : m Unit :=
  if condition then pure () else throw otherwise

end ClassHeader
