import ClassHeader.Text.Utf8

/-!
# C++ names

Class, field and method names as C++ identifiers. Letters and digits stay as
they are; every other character is written behind an underscore, and an
underscore itself is doubled.
-/

namespace ClassHeader.Cpp

/-- Words that cannot be identifiers, and the names that generated code relies on. -/
def reservedWords : List String :=
  ["alignas", "alignof", "and", "and_eq", "asm", "auto", "bitand", "bitor", "bool", "break",
    "case", "catch", "char", "char8_t", "char16_t", "char32_t", "class", "compl", "concept",
    "const", "consteval", "constexpr", "constinit", "const_cast", "continue", "co_await",
    "co_return", "co_yield", "decltype", "default", "delete", "do", "double", "dynamic_cast",
    "else", "enum", "explicit", "export", "extern", "false", "float", "for", "friend", "goto",
    "if", "inline", "int", "long", "mutable", "namespace", "new", "noexcept", "not", "not_eq",
    "nullptr", "operator", "or", "or_eq", "private", "protected", "public", "register",
    "reinterpret_cast", "requires", "return", "short", "signed", "sizeof", "static",
    "static_assert", "static_cast", "struct", "switch", "template", "this", "thread_local",
    "throw", "true", "try", "typedef", "typeid", "typename", "union", "unsigned", "using",
    "virtual", "void", "volatile", "wchar_t", "while", "xor", "xor_eq", "NULL", "INFINITY", "NAN",
    "jaot"]

def isReserved (s : Bytes) : Bool := s ∈ reservedWords.map text

def escapeChar (c : Char) : Bytes :=
  if c.isAlpha || c.isDigit then Text.ofChars [c]
  else if c = '_' then text "__"
  else if c = '$' then text "_S"
  else if c.toNat ≤ 0xFFFF then text "_u" ++ Text.hex 4 c.toNat
  else text "_U" ++ Text.hex 8 c.toNat

/-- The identifier of a name, which may still be a reserved word. A digit at the front gets an
underscore before it; stray bytes are written as U+FFFD. -/
def escape (name : Bytes) : Bytes :=
  if name = text "<init>" then text "_init"
  else if name = text "<clinit>" then text "_clinit"
  else
    match Utf8.lossyChars name with
    | [] => text "_"
    | c :: rest => (if c.isDigit then text "_" else []) ++ (c :: rest).flatMap escapeChar

def unreserved (s : Bytes) : Bytes := if isReserved s then s ++ text "_" else s

def mangle (name : Bytes) : Bytes := unreserved (escape name)

def splitClassName (name : Bytes) : Bytes × Bytes :=
  (Text.splitLast? Ascii.slash name).getD ([], name)

def packageParts (package : Bytes) : List Bytes :=
  if package = [] then [] else Text.splitOn Ascii.slash package

def qualifiedName (name : Bytes) : Bytes :=
  let (package, simple) := splitClassName name
  (packageParts package ++ [simple]).flatMap fun part => text "::" ++ mangle part

/-! ## Checks -/

def isIdentStart (c : UInt8) : Bool :=
  c = Ascii.underscore || (97 ≤ c && c ≤ 122) || (65 ≤ c && c ≤ 90)

def isIdentRest (c : UInt8) : Bool := isIdentStart c || (48 ≤ c && c ≤ 57)

def isIdentifier : Bytes → Bool
  | [] => false
  | c :: rest => isIdentStart c && rest.all isIdentRest

def splitScopes : Bytes → List Bytes
  | [] => [[]]
  | 58 :: 58 :: rest => [] :: splitScopes rest
  | c :: rest =>
    match splitScopes rest with
    | [] => [[c]]
    | piece :: pieces => (c :: piece) :: pieces

def isQualified (name : Bytes) : Bool :=
  let name := match name with
    | 58 :: 58 :: rest => rest
    | _ => name
  name ≠ [] && (splitScopes name).all isIdentifier

end ClassHeader.Cpp
