import ClassHeader.Error

/-!
# Checking generated source

A parser of C++ gives a tree of the source, with marks at what it could not parse and at what it
had to make up. Generated source is accepted if its tree has no such marks. The parser is not part
of the program, and without one no source is accepted.
-/

namespace ClassHeader.Cpp

structure TreeLabel where
  kind : Bytes
  isError : Bool := false
  isMissing : Bool := false
  /-- Whether the parser reports a mark here or below. -/
  hasError : Bool := false
  row : Nat := 0
  column : Nat := 0
  deriving DecidableEq, Repr

inductive SyntaxTree where
  | node (label : TreeLabel) (children : List SyntaxTree)

abbrev TreeParser := Bytes → Result SyntaxTree

namespace SyntaxTree

def label : SyntaxTree → TreeLabel
  | .node label _ => label

mutual

def firstMark? : SyntaxTree → Option TreeLabel
  | .node label children =>
    if label.isError ∨ label.isMissing then some label
    else if label.hasError then firstMarkOf? children
    else none

def firstMarkOf? : List SyntaxTree → Option TreeLabel
  | [] => none
  | tree :: rest => tree.firstMark?.or (firstMarkOf? rest)

end

end SyntaxTree

def TreeLabel.shown (mark : TreeLabel) : Bytes :=
  (if mark.isMissing then text "missing " ++ mark.kind else text "unexpected input") ++
    text " at line " ++ Text.ofNat (mark.row + 1) ++ text " column " ++ Text.ofNat (mark.column + 1)

def verify : Option TreeParser → Bytes → Result Unit
  | none, _ => throw (.unsupported .codegen (text "source verification requires CGO (tree-sitter)"))
  | some parse, source => do
    let tree ← (parse source).mapError (.causedBy {
      phase := .codegen, kind := .invalidData, detail := text "parse generated source" })
    ensure (tree.label.hasError = false) (.invalidData .codegen []
      (text "generated source does not parse: " ++ (tree.firstMark?.getD tree.label).shown))

end ClassHeader.Cpp
