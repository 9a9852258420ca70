import ClassHeader.Error

/-!
# Descriptors

Field and method types and their written form. Each type has exactly one
descriptor, so a parsed type keeps no text of its own: `FieldType.descriptor`
and `MethodType.descriptor` write it again.
-/

namespace ClassHeader

open Ascii

inductive Primitive where
  | byte
  | char
  | double
  | float
  | int
  | long
  | short
  | boolean
  deriving DecidableEq, Repr

inductive FieldType where
  | primitive (type : Primitive)
  | object (className : Bytes)
  | array (component : FieldType)
  deriving DecidableEq, Repr

structure MethodType where
  args : List FieldType
  /-- Absent for methods that return nothing. -/
  result : Option FieldType
  deriving DecidableEq, Repr

namespace Primitive

def all : List Primitive := [.byte, .char, .double, .float, .int, .long, .short, .boolean]

def letter : Primitive → UInt8
  | .byte => 66
  | .char => 67
  | .double => 68
  | .float => 70
  | .int => 73
  | .long => 74
  | .short => 83
  | .boolean => 90

def name : Primitive → Bytes
  | .byte => text "byte"
  | .char => text "char"
  | .double => text "double"
  | .float => text "float"
  | .int => text "int"
  | .long => text "long"
  | .short => text "short"
  | .boolean => text "boolean"

def ofLetter? (c : UInt8) : Option Primitive := all.find? (·.letter = c)

def isWide : Primitive → Bool
  | .long | .double => true
  | _ => false

end Primitive

namespace FieldType

def descriptor : FieldType → Bytes
  | .primitive type => [type.letter]
  | .object className => classMark :: className ++ [semicolon]
  | .array component => openBracket :: component.descriptor

def dimensions : FieldType → Nat
  | .array component => component.dimensions + 1
  | _ => 0

def element : FieldType → FieldType
  | .array component => component.element
  | t => t

def component? : FieldType → Option FieldType
  | .array component => some component
  | _ => none

def className? : FieldType → Option Bytes
  | .primitive _ => none
  | .object className => some className
  | .array component => component.className?

def isWide : FieldType → Bool
  | .primitive type => type.isWide
  | _ => false

def slots (t : FieldType) : Nat := if t.isWide then 2 else 1

end FieldType

namespace MethodType

def descriptor (m : MethodType) : Bytes :=
  openParen :: m.args.flatMap FieldType.descriptor ++ closeParen ::
    match m.result with
    | some result => result.descriptor
    | none => [voidMark]

def argSlots (m : MethodType) : Nat := m.args.foldr (fun t n => t.slots + n) 0

end MethodType

/-! ## The leading letters of descriptors -/

inductive TypeLetter where
  | primitive (type : Primitive)
  | object
  | array
  | unknown (c : UInt8)
  deriving DecidableEq, Repr

namespace TypeLetter

def ofByte (c : UInt8) : TypeLetter :=
  if c = classMark then .object
  else if c = openBracket then .array
  else match Primitive.ofLetter? c with
    | some type => .primitive type
    | none => .unknown c

def ofType : FieldType → TypeLetter
  | .primitive type => .primitive type
  | .object _ => .object
  | .array _ => .array

def name : TypeLetter → Bytes
  | .primitive type => type.name
  | .object => text "class"
  | .array => text "array"
  | .unknown c => text "FieldType(" ++ Text.quotedByte c ++ text ")"

def isPrimitive : TypeLetter → Bool
  | .primitive _ => true
  | _ => false

def isWide : TypeLetter → Bool
  | .primitive type => type.isWide
  | _ => false

end TypeLetter

/-! ## Reading descriptors -/

namespace Descriptor

def malformed (whole detail : Bytes) : Error :=
  .fault {
    phase := .descriptor, kind := .invalidData
    detail := text "malformed descriptor " ++ Text.quoted whole ++ text ": " ++ detail }

def trailing (whole rest : Bytes) : Error :=
  malformed whole (text "trailing data at offset " ++ Text.ofNat (whole.length - rest.length))

/-- The field type at the front of `s`, which is an end of `whole`, and the text behind it. -/
def fieldAt (whole : Bytes) : Bytes → Result (FieldType × Bytes)
  | [] => throw (malformed whole (text "missing array element type"))
  | c :: s =>
    if c = openBracket then do
      let (component, rest) ← fieldAt whole s
      return (.array component, rest)
    else if c = classMark then
      let className := s.takeWhile (· ≠ semicolon)
      match s.dropWhile (· ≠ semicolon) with
      | [] => throw (malformed whole (text "unterminated class name"))
      | _ :: rest =>
        if className = [] then throw (malformed whole (text "empty class name"))
        else return (.object className, rest)
    else
      match Primitive.ofLetter? c with
      | some type => return (.primitive type, s)
      | none =>
        throw (malformed whole (text "unknown type character " ++ Text.quotedByte c ++
          text " at offset " ++ Text.ofNat (whole.length - (s.length + 1))))

theorem fieldAt_length {whole s rest : Bytes} {t : FieldType}
    (h : fieldAt whole s = .ok (t, rest)) : rest.length < s.length := by
  -- Only an array recurs: its component starts one byte further on.
  induction s generalizing t rest with
  | nil => simp [fieldAt, throw, throwThe, MonadExceptOf.throw] at h
  | cons c s ih =>
    unfold fieldAt at h
    split at h
    · cases hs : fieldAt whole s with
      | error e => simp [hs, bind, Except.bind] at h
      | ok found =>
        obtain ⟨component, behind⟩ := found
        simp only [hs, bind, Except.bind, pure, Except.pure, Except.ok.injEq, Prod.mk.injEq] at h
        have := ih hs
        simp [← h.2]; omega
    · split at h
      · have hdrop : (s.dropWhile (· ≠ semicolon)).length ≤ s.length :=
          (List.dropWhile_suffix _).length_le
        split at h
        · simp [throw, throwThe, MonadExceptOf.throw] at h
        · rename_i heq
          rw [heq] at hdrop
          dsimp only at h
          split at h
          · simp [throw, throwThe, MonadExceptOf.throw] at h
          · simp only [pure, Except.pure, Except.ok.injEq, Prod.mk.injEq] at h
            simp [← h.2] at *; omega
      · split at h
        · simp only [pure, Except.pure, Except.ok.injEq, Prod.mk.injEq] at h
          simp [← h.2]
        · simp [throw, throwThe, MonadExceptOf.throw] at h

def argsAt (whole s : Bytes) : Result (List FieldType × Bytes) :=
  match s with
  | [] => throw (malformed whole (text "unterminated argument list"))
  | c :: rest =>
    if c = closeParen then return ([], rest)
    else if c = voidMark then throw (malformed whole (text "void argument"))
    else
      match _h : fieldAt whole (c :: rest) with
      | .error e => throw e
      | .ok (arg, behind) => do
        let (args, after) ← argsAt whole behind
        return (arg :: args, after)
termination_by s.length
decreasing_by exact fieldAt_length _h

end Descriptor

def FieldType.parse (s : Bytes) : Result FieldType :=
  if s = [] then throw (Descriptor.malformed s (text "empty descriptor"))
  else do
    let (t, rest) ← Descriptor.fieldAt s s
    if rest = [] then return t else throw (Descriptor.trailing s rest)

/-- The type that a class constant names: an array descriptor or a plain class name. -/
def FieldType.ofClassName (name : Bytes) : Result FieldType :=
  match name with
  | [] => throw (Descriptor.malformed name (text "empty class name"))
  | c :: _ =>
    if c = openBracket then FieldType.parse name
    else if name.any fun b => b = semicolon || b = openBracket then
      throw (Descriptor.malformed name (text "invalid character in class name"))
    else return .object name

def MethodType.parse (s : Bytes) : Result MethodType :=
  match s with
  | [] => throw (Descriptor.malformed s (text "empty descriptor"))
  | c :: rest =>
    if c ≠ openParen then
      throw (Descriptor.malformed s (text "method descriptor must start with '('"))
    else do
      let (args, behind) ← Descriptor.argsAt s rest
      match behind with
      | [] => throw (Descriptor.malformed s (text "missing return type"))
      | r :: after =>
        if r = voidMark then
          if after = [] then return { args, result := none }
          else throw (Descriptor.trailing s after)
        else
          let (result, after) ← Descriptor.fieldAt s behind
          if after = [] then return { args, result := some result }
          else throw (Descriptor.trailing s after)

end ClassHeader
