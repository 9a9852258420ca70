import ClassHeader.Error

/-!
# Printing code

A printer indents lines and hands its text on in pieces: one for the indentation
of a line, one for each text and one for each line end. The receiver may refuse a
piece; nothing is handed on after that.
-/

namespace ClassHeader.Cpp

inductive Capacity where
  | unlimited
  | bytes (limit : Nat)
  | pieces (limit : Nat)
  deriving DecidableEq, Repr

structure Sink where
  capacity : Capacity := .unlimited
  refusal : Error := .plain (ClassHeader.text "write failed")
  taken : List Bytes := []
  size : Nat := 0
  refused : List Bytes := []
  deriving DecidableEq, Repr

namespace Sink

def accepts (s : Sink) (piece : Bytes) : Bool :=
  match s.capacity with
  | .unlimited => true
  | .bytes limit => s.size + piece.length ≤ limit
  | .pieces limit => s.taken.length < limit

def take (s : Sink) (piece : Bytes) : Sink :=
  { s with taken := piece :: s.taken, size := s.size + piece.length }

def refuse (s : Sink) (piece : Bytes) : Sink := { s with refused := piece :: s.refused }

def text (s : Sink) : Bytes := s.taken.reverse.flatten

end Sink

structure Printer where
  sink : Sink := {}
  depth : Nat := 0
  midLine : Bool := false
  error : Option Error := none
  deriving DecidableEq, Repr

namespace Printer

def emit (p : Printer) (piece : Bytes) : Printer :=
  if p.error.isSome then p
  else if p.sink.accepts piece then { p with sink := p.sink.take piece }
  else { p with sink := p.sink.refuse piece, error := some p.sink.refusal }

def indent (p : Printer) : Printer := { p with depth := p.depth + 1 }

def dedent (p : Printer) : Printer := { p with depth := p.depth - 1 }

def indentation (depth : Nat) : Bytes := List.replicate (4 * depth) Ascii.blank

/-- Text on the current line, which is indented first when it is empty so far. -/
def write (p : Printer) (s : Bytes) : Printer :=
  if p.error.isSome ∨ s = [] then p
  else
    let p := if p.midLine then p
      else if 0 < p.depth then { p.emit (indentation p.depth) with midLine := true }
      else { p with midLine := true }
    p.emit s

def newline (p : Printer) : Printer := { p.emit [Ascii.newline] with midLine := false }

def line (p : Printer) (s : Bytes) : Printer := (p.write s).newline

def writeAll (p : Printer) (texts : List Bytes) : Printer := texts.foldl write p

def result (p : Printer) : Result Unit :=
  match p.error with
  | some e => throw e
  | none => return ()

end Printer
end ClassHeader.Cpp
