import ClassHeader.Text.Grapheme

/-!
# Width of text on a terminal

How many columns a line takes. East Asian characters and most pictures take two,
accents and control characters none, and sequences that control the terminal
none either.
-/

namespace ClassHeader.Text

/-! ## Characters -/

def wideRuns : Runs :=
  [(0x1100, 0x115F), (0x231A, 0x231B), (0x2329, 0x232A), (0x23E9, 0x23EC), (0x23F0, 0x23F0),
    (0x23F3, 0x23F3), (0x25FD, 0x25FE), (0x2614, 0x2615), (0x2648, 0x2653), (0x267F, 0x267F),
    (0x2693, 0x2693), (0x26A1, 0x26A1), (0x26AA, 0x26AB), (0x26BD, 0x26BE), (0x26C4, 0x26C5),
    (0x26CE, 0x26CE), (0x26D4, 0x26D4), (0x26EA, 0x26EA), (0x26F2, 0x26F3), (0x26F5, 0x26F5),
    (0x26FA, 0x26FA), (0x26FD, 0x26FD), (0x2705, 0x2705), (0x270A, 0x270B), (0x2728, 0x2728),
    (0x274C, 0x274C), (0x274E, 0x274E), (0x2753, 0x2755), (0x2757, 0x2757), (0x2795, 0x2797),
    (0x27B0, 0x27B0), (0x27BF, 0x27BF), (0x2B1B, 0x2B1C), (0x2B50, 0x2B50), (0x2B55, 0x2B55),
    (0x2E80, 0x2E99), (0x2E9B, 0x2EF3), (0x2F00, 0x2FD5), (0x2FF0, 0x2FFB), (0x3000, 0x303E),
    (0x3041, 0x3096), (0x3099, 0x30FF), (0x3105, 0x312F), (0x3131, 0x318E), (0x3190, 0x31E3),
    (0x31F0, 0x321E), (0x3220, 0x3247), (0x3250, 0x4DBF), (0x4E00, 0xA48C), (0xA490, 0xA4C6),
    (0xA960, 0xA97C), (0xAC00, 0xD7A3), (0xF900, 0xFAFF), (0xFE10, 0xFE19), (0xFE30, 0xFE52),
    (0xFE54, 0xFE66), (0xFE68, 0xFE6B), (0xFF01, 0xFF60), (0xFFE0, 0xFFE6), (0x16FE0, 0x16FE4),
    (0x16FF0, 0x16FF1), (0x17000, 0x187F7), (0x18800, 0x18CD5), (0x18D00, 0x18D08),
    (0x1AFF0, 0x1AFF3), (0x1AFF5, 0x1AFFB), (0x1AFFD, 0x1AFFE), (0x1B000, 0x1B122),
    (0x1B132, 0x1B132), (0x1B150, 0x1B152), (0x1B155, 0x1B155), (0x1B164, 0x1B167),
    (0x1B170, 0x1B2FB), (0x1F004, 0x1F004), (0x1F0CF, 0x1F0CF), (0x1F18E, 0x1F18E),
    (0x1F191, 0x1F19A), (0x1F200, 0x1F202), (0x1F210, 0x1F23B), (0x1F240, 0x1F248),
    (0x1F250, 0x1F251), (0x1F260, 0x1F265), (0x1F300, 0x1F320), (0x1F32D, 0x1F335),
    (0x1F337, 0x1F37C), (0x1F37E, 0x1F393), (0x1F3A0, 0x1F3CA), (0x1F3CF, 0x1F3D3),
    (0x1F3E0, 0x1F3F0), (0x1F3F4, 0x1F3F4), (0x1F3F8, 0x1F43E), (0x1F440, 0x1F440),
    (0x1F442, 0x1F4FC), (0x1F4FF, 0x1F53D), (0x1F54B, 0x1F54E), (0x1F550, 0x1F567),
    (0x1F57A, 0x1F57A), (0x1F595, 0x1F596), (0x1F5A4, 0x1F5A4), (0x1F5FB, 0x1F64F),
    (0x1F680, 0x1F6C5), (0x1F6CC, 0x1F6CC), (0x1F6D0, 0x1F6D2), (0x1F6D5, 0x1F6D7),
    (0x1F6DC, 0x1F6DF), (0x1F6EB, 0x1F6EC), (0x1F6F4, 0x1F6FC), (0x1F7E0, 0x1F7EB),
    (0x1F7F0, 0x1F7F0), (0x1F90C, 0x1F93A), (0x1F93C, 0x1F945), (0x1F947, 0x1F9FF),
    (0x1FA70, 0x1FA7C), (0x1FA80, 0x1FA88), (0x1FA90, 0x1FABD), (0x1FABF, 0x1FAC5),
    (0x1FACE, 0x1FADB), (0x1FAE0, 0x1FAE8), (0x1FAF0, 0x1FAF8), (0x20000, 0x2FFFD),
    (0x30000, 0x3FFFD)]

/-- Wide pictures that are shown as text, in one column, unless something else is asked for. -/
def textPictographs : Runs :=
  [(0x3030, 0x3030), (0x303D, 0x303D), (0x3297, 0x3297), (0x3299, 0x3299), (0x1F202, 0x1F202),
    (0x1F237, 0x1F237), (0x1F260, 0x1F265)]

def columns (c : Char) : Nat :=
  match graphemeClass c with
  | .control | .carriageReturn | .lineFeed | .extend | .joiner => 0
  | .regional => 2
  | .pictograph => if wideRuns.covers c ∧ ¬textPictographs.covers c then 2 else 1
  | _ =>
    if c = '\u2E3A' then 3
    else if c = '\u2E3B' then 4
    else if wideRuns.covers c then 2
    else 1

/-- The columns of a character of several code points. A picture takes one column or two as the
selector behind it says. -/
def graphemeColumns (first : Char) (others : List Char) : Nat :=
  match graphemeClass first with
  | .pictograph => others.foldl (fun n c =>
      if c = '\uFE0E' then 1 else if c = '\uFE0F' then 2 else n) (columns first)
  | .regional | .leading => columns first
  | _ => others.foldl (fun n c => n + columns c) (columns first)

/-! ## Control sequences -/

inductive ControlState where
  | ground
  | escape
  | escapeMore
  | sequence
  | sequenceMore
  | device
  | deviceNumbers
  | deviceMore
  | deviceText
  | command
  | ignored
  deriving DecidableEq, Repr

namespace ControlState

def isPlainControl (b : UInt8) : Bool :=
  b < 0x18 || b = 0x19 || (0x1C ≤ b && b < 0x20) || b = 0x7F

def anywhere (b : UInt8) : ControlState :=
  if b = 0x1B then .escape
  else if b = 0x90 then .device
  else if b = 0x98 ∨ b = 0x9E ∨ b = 0x9F then .ignored
  else if b = 0x9B then .sequence
  else if b = 0x9D then .command
  else .ground

def afterEscape (b : UInt8) : ControlState :=
  if isPlainControl b then .escape
  else if b < 0x20 ∨ 0x80 ≤ b then anywhere b
  else if b < 0x30 then .escapeMore
  else if b = 0x50 then .device
  else if b = 0x58 ∨ b = 0x5E ∨ b = 0x5F then .ignored
  else if b = 0x5B then .sequence
  else if b = 0x5D then .command
  else .ground

def inText (state : ControlState) (b : UInt8) : ControlState :=
  if b = 0x1B then .escape
  else if b = 0x9C ∨ b = 0x18 ∨ b = 0x1A ∨ (state = .command ∧ b = 0x07) then .ground
  else state

/-- The state behind a byte of a sequence: `marks` behind a byte below the digits, `digits` behind a
digit or the few signs after them, `last` behind a letter. -/
def inSequence (state marks digits last : ControlState) (b : UInt8) : ControlState :=
  if isPlainControl b then state
  else if b < 0x20 ∨ 0x80 ≤ b then anywhere b
  else if b < 0x30 then marks
  else if b < 0x40 then digits
  else last

def next (state : ControlState) (b : UInt8) : ControlState :=
  match state with
  | .ground => anywhere b
  | .escape => afterEscape b
  | .escapeMore => inSequence state state .ground .ground b
  | .sequence => inSequence state .sequenceMore state .ground b
  | .sequenceMore => inSequence state state .ground .ground b
  | .device =>
    if (0x08 ≤ b ∧ b ≤ 0x0D) ∨ b = 0x1B then .deviceText
    else inSequence state .deviceMore .deviceNumbers .deviceText b
  | .deviceNumbers => inSequence state .deviceMore state .deviceText b
  | .deviceMore => inSequence state state .deviceText .deviceText b
  | .deviceText | .command => inText state b
  | .ignored => if isPlainControl b ∨ (0x20 ≤ b ∧ b < 0x7F) then state else anywhere b

end ControlState

/-! ## Lines -/

def isLead (b : UInt8) : Bool := 0xC2 ≤ b && b ≤ 0xF4

/-- The columns of a line from a state on. Each step takes a byte at least. -/
def widthFrom : (fuel : Nat) → ControlState → Bytes → Nat
  | 0, _, _ | _, _, [] => 0
  | fuel + 1, state, b :: s =>
    if isLead b ∧ state ≠ .command ∧ state ≠ .deviceText then
      let (first, rest) := (Utf8.firstLossy? (b :: s)).getD ('\uFFFD', s)
      let (others, rest) := graphemeTail rest.length (.start (graphemeClass first)) rest
      graphemeColumns first others + widthFrom fuel .ground rest
    else
      let shown := state = .ground ∧ 0x20 ≤ b ∧ b < 0x7F
      (if shown then 1 else 0) + widthFrom fuel (state.next b) s

def width (line : Bytes) : Nat := widthFrom line.length .ground line

/-! ## Blocks

Text that is drawn in one style fills a rectangle: all its lines are as wide as
the widest of them. -/

def expandTabs (s : Bytes) : Bytes :=
  s.flatMap fun b => if b = 9 then List.replicate 4 Ascii.blank else [b]

def dropReturns : Bytes → Bytes
  | [] => []
  | b :: s =>
    if b = Ascii.carriageReturn ∧ s.head? = some Ascii.newline then dropReturns s
    else b :: dropReturns s

def padTo (columns : Nat) (line : Bytes) : Bytes :=
  line ++ List.replicate (columns - width line) Ascii.blank

/-- Text as a rectangle. A single line has the right width as it is. -/
def block (s : Bytes) : Bytes :=
  match splitOn Ascii.newline (dropReturns (expandTabs s)) with
  | [] => []
  | [line] => line
  | lines => [Ascii.newline].intercalate (lines.map (padTo ((lines.map width).foldl max 0)))

end ClassHeader.Text
