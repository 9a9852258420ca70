import ClassHeader.Cpp.Literal
import ClassHeader.Cpp.Printer
import ClassHeader.Cpp.TypeRef

/-!
# C++ source trees

The parts of a header: declarations, comments and the few statements that
function bodies hold. A tree is rendered through a printer; the `make` functions
build the nodes whose names and children have to be checked.
-/

namespace ClassHeader.Cpp

structure Param where
  type : TypeRef
  name : Bytes
  deriving DecidableEq, Repr

inductive Node where
  /-- A whole header; the comment on top of it may be empty. -/
  | file (heading : Bytes) (children : List Node)
  /-- Declarations inside nested namespaces, or in the global one when the path is empty. -/
  | scope (path : List Bytes) (children : List Node)
  | struct (name : Bytes) (bases : List Bytes) (children : List Node)
  | access (label : Bytes) (children : List Node)
  | block (children : List Node)
  | group (children : List Node)
  | statement (parts : List Node)
  | includeFile (path : Bytes) (system : Bool)
  | forward (name : Bytes)
  | comment (content : Bytes)
  | verbatim (content : Bytes)
  | identifier (name : Bytes)
  | literal (written : Bytes)
  | typeName (type : TypeRef)
  | field (type : TypeRef) (name : Bytes) (init : Option Node) (constexpr : Bool)
  /-- A declaration, or a definition when there is a body. -/
  | function (result : TypeRef) (name : Bytes) (params : List Param) (isVirtual isPure : Bool)
    (body : Option (List Node))

namespace Node

def childCount : Node → Nat
  | .file _ children | .scope _ children | .struct _ _ children | .access _ children
  | .block children | .group children | .statement children => children.length
  | .field _ _ (some _) _ => 1
  | .function _ _ _ _ _ (some _) => 1
  | _ => 0

/-! ## Rendering -/

def renderComment (content : Bytes) (p : Printer) : Printer :=
  (Text.splitOn Ascii.newline content).foldl
    (fun p s => p.line (if s = [] then text "//" else text "// " ++ s)) p

def renderVerbatim (content : Bytes) (p : Printer) : Printer :=
  (Text.splitOn Ascii.newline (Text.dropTail [Ascii.newline] content)).foldl Printer.line p

def scopeName (path : List Bytes) : Bytes := (text "::").intercalate path

def renderBases (p : Printer) : List Bytes → Printer
  | [] => p
  | base :: rest =>
    rest.foldl (fun p b => p.writeAll [text ", ", text "public " ++ b])
      (p.writeAll [text " : ", text "public " ++ base])

def Param.written (param : Param) : Bytes := param.type.written ++ text " " ++ param.name

def renderParams (p : Printer) : List Param → Printer
  | [] => p
  | param :: rest =>
    rest.foldl (fun p q => p.writeAll [text ", ", Param.written q]) (p.write (Param.written param))

/-- The type and name of a field. A constant is announced before its type, behind its storage
class. -/
def renderField (type : TypeRef) (name : Bytes) (constexpr : Bool) (p : Printer) : Printer :=
  let isStatic := type.flags.has TypeFlags.static
  let p := if constexpr ∧ isStatic then p.write (text "static ") else p
  let p := if constexpr then p.write (text "constexpr ") else p
  let shown := if constexpr ∧ isStatic then
    { type with flags := type.flags ^^^ TypeFlags.static } else type
  p.write (shown.written ++ text " " ++ name)

def renderSignature (result : TypeRef) (name : Bytes) (params : List Param) (isVirtual : Bool)
    (p : Printer) : Printer :=
  let p := if isVirtual then p.write (text "virtual ") else p
  (renderParams (p.write (result.written ++ text " " ++ name ++ text "(")) params).write (text ")")

mutual

def render : Node → Printer → Printer
  | .file heading children, p =>
    let p := if heading = [] then p else renderComment heading p
    renderEach Printer.newline children (p.line (text "#pragma once"))
  | .scope path children, p =>
    if path = [] then renderEach id children p
    else
      let p := p.line (text "namespace " ++ scopeName path ++ text " \x7b")
      (renderEach id children p).line (text "\x7d // namespace " ++ scopeName path)
  | .struct name bases children, p =>
    let p := (renderBases (p.write (text "struct " ++ name)) bases).line (text " \x7b")
    (renderEach id children p.indent).dedent.line (text "\x7d;")
  | .access label children, p =>
    -- The label stands one level further out than what it introduces.
    renderEach id children (p.dedent.line (label ++ text ":")).indent
  | .block children, p => (renderEach id children p.indent).dedent
  | .group children, p => renderEach id children p
  | .statement [], p => p.line (text ";")
  | .statement (part :: parts), p =>
    (renderEach (·.write (text " ")) parts (part.render p)).line (text ";")
  | .includeFile path system, p =>
    p.line (text "#include " ++
      if system then text "<" ++ path ++ text ">" else Text.quoted path)
  | .forward name, p => p.line (text "struct " ++ name ++ text ";")
  | .comment content, p => renderComment content p
  | .verbatim content, p => renderVerbatim content p
  | .identifier name, p => p.write name
  | .literal written, p => p.write written
  | .typeName type, p => p.write type.written
  | .field type name none constexpr, p =>
    (renderField type name constexpr p).line (text ";")
  | .field type name (some init) constexpr, p =>
    (init.render ((renderField type name constexpr p).write (text " = "))).line (text ";")
  | .function result name params isVirtual isPure none, p =>
    (renderSignature result name params (isVirtual || isPure) p).line
      (text (if isPure then " = 0;" else ";"))
  | .function result name params isVirtual isPure (some body), p =>
    let p := renderSignature result name params (isVirtual || isPure) p
    if isPure then p.line (text " = 0;")
    else (renderEach id body (p.line (text " \x7b")).indent).dedent.line (text "\x7d")

def renderEach (before : Printer → Printer) : List Node → Printer → Printer
  | [], p => p
  | node :: rest, p => renderEach before rest (node.render (before p))

end

def printInto (node : Node) (capacity : Capacity) : Printer :=
  node.render { sink := { capacity } }

/-! ## Checked construction -/

/-- Adds children behind those that a node has. An absent child is refused, and then nothing is
added. -/
def adopt (present : List Node) (children : List (Option Node)) : Result (List Node) :=
  match children.findIdx? Option.isNone with
  | some i =>
    throw (.fault {
      phase := .codegen, kind := .invalidConfig
      path := [text "children", Text.ofNat (present.length + i)], detail := text "nil child node" })
  | none => return present ++ children.filterMap id

def makeIdentifier (name : Bytes) : Result Node := do
  ensure (isQualified name) (.fault {
    phase := .codegen, kind := .invalidConfig
    detail := text "invalid identifier " ++ Text.quoted name })
  return .identifier name

def makeLiteral (value : Value) : Result Node := return .literal (← value.written)

def scopePath (package : Bytes) : Result (List Bytes) := do
  let parts := packageParts package
  ensure ([] ∉ parts) (.invalidConfig .codegen (text "namespace")
    (text "empty segment in package " ++ package))
  return parts.map mangle

def makeScope (package : Bytes) (children : List (Option Node)) : Result Node :=
  return .scope (← scopePath package) (← adopt [] children)

def makeStruct (name : Bytes) (bases : List Bytes) (children : List (Option Node)) :
    Result Node := do
  ensure (isIdentifier name) (.invalidConfig .codegen (text "name")
    (text "invalid class name " ++ name))
  for base in bases do
    ensure (isQualified base) (.invalidConfig .codegen (text "bases")
      (text "invalid base class " ++ base))
  return .struct name bases (← adopt [] children)

def makeField (type : Option TypeRef) (name : Bytes) (init : Option Node) (constexpr : Bool) :
    Result Node := do
  let some type := type
    | throw (.invalidConfig .codegen (text "type") (text "field " ++ name ++ text " has no type"))
  ensure (isIdentifier name) (.invalidConfig .codegen (text "name")
    (text "invalid field name " ++ Text.quoted name))
  return .field type name init constexpr

def makeParam (function : Bytes) (type : Option TypeRef) (name : Bytes) : Result Param :=
  match type with
  | some type => do
    ensure (isIdentifier name) invalid
    return { type, name }
  | none => throw invalid
where
  invalid := .invalidConfig .codegen (text "params") (text "invalid parameter in " ++ function)

def makeFunction (result : Option TypeRef) (name : Bytes)
    (params : List (Option TypeRef × Bytes)) (isVirtual isPure : Bool)
    (body : Option (List Node)) : Result Node := do
  let some result := result
    | throw (.invalidConfig .codegen (text "return")
        (text "function " ++ name ++ text " has no return type"))
  ensure (isIdentifier name) (.invalidConfig .codegen (text "name")
    (text "invalid function name " ++ name))
  let params ← params.mapM fun (type, param) => makeParam name type param
  return .function result name params isVirtual isPure body

end Node
end ClassHeader.Cpp
