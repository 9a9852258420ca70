import ClassHeader.Text.Utf8

/-!
# Editing a line

One line of text with a cursor in it, and what the usual keys do to it.
-/

namespace ClassHeader

structure LineEditor where
  before : List Char := []
  after : List Char := []
  deriving DecidableEq, Repr

namespace LineEditor

def text (e : LineEditor) : List Char := e.before ++ e.after

/-! ## Text -/

/-- Typed text on one line: line ends and tabs are blanks, other control characters are left
out. -/
def singleLine (chars : List Char) : List Char :=
  chars.filterMap fun c =>
    if c = '\n' ∨ c = '\r' ∨ c = '\t' then some ' '
    else if c.toNat < 0x20 ∨ (0x7F ≤ c.toNat ∧ c.toNat < 0xA0) ∨ c = '\uFFFD' then none
    else some c

def insert (chars : List Char) (e : LineEditor) : LineEditor :=
  { e with before := e.before ++ singleLine chars }

def deleteBackward (e : LineEditor) : LineEditor := { e with before := e.before.dropLast }

def deleteForward (e : LineEditor) : LineEditor := { e with after := e.after.drop 1 }

def deleteBefore (e : LineEditor) : LineEditor := { e with before := [] }

def deleteAfter (e : LineEditor) : LineEditor := { e with after := [] }

/-! ## Movement -/

def moveTo (e : LineEditor) (n : Nat) : LineEditor :=
  { before := e.text.take n, after := e.text.drop n }

def moveBack (e : LineEditor) : LineEditor := e.moveTo (e.before.length - 1)

def moveOn (e : LineEditor) : LineEditor := e.moveTo (e.before.length + 1)

def moveToStart (e : LineEditor) : LineEditor := e.moveTo 0

def moveToEnd (e : LineEditor) : LineEditor := e.moveTo e.text.length

/-! ## Words -/

def dropWord (chars : List Char) : List Char :=
  (chars.dropWhile Text.isBlankChar).dropWhile (!Text.isBlankChar ·)

def beforeWord (e : LineEditor) : List Char := (dropWord e.before.reverse).reverse

def moveBackWord (e : LineEditor) : LineEditor := e.moveTo e.beforeWord.length

def moveOnWord (e : LineEditor) : LineEditor :=
  e.moveTo (e.text.length - (dropWord e.after).length)

/-- Deletes the word before the cursor; a single blank at the start of the line goes with it. -/
def deleteWordBackward (e : LineEditor) : LineEditor :=
  { e with before := if e.beforeWord.length ≤ 1 then [] else e.beforeWord }

def deleteWordForward (e : LineEditor) : LineEditor :=
  { e with after := dropWord (e.after.drop 1) }

/-! ## Keys -/

/-- What a key does by its name; other names are those of keys for suggestions and pasting, which
do nothing here. -/
def actions : List (List String × (LineEditor → LineEditor)) :=
  [(["alt+backspace", "ctrl+w"], deleteWordBackward),
    (["backspace", "ctrl+h"], deleteBackward),
    (["alt+left", "ctrl+left", "alt+b"], moveBackWord),
    (["left", "ctrl+b"], moveBack),
    (["alt+right", "ctrl+right", "alt+f"], moveOnWord),
    (["right", "ctrl+f"], moveOn),
    (["home", "ctrl+a"], moveToStart),
    (["delete", "ctrl+d"], deleteForward),
    (["end", "ctrl+e"], moveToEnd),
    (["ctrl+k"], deleteAfter),
    (["ctrl+u"], deleteBefore),
    (["alt+delete", "alt+d"], deleteWordForward),
    (["ctrl+v", "down", "ctrl+n", "up", "ctrl+p"], id)]

/-- Types text. Text that spells the name of a key acts as that key. -/
def type (chars : List Char) (e : LineEditor) : LineEditor :=
  match actions.find? fun (names, _) => String.ofList chars ∈ names with
  | some (_, action) => action e
  | none => e.insert chars

end LineEditor
end ClassHeader
