import ClassHeader.Error

/-!
# Reading and writing bytes

All numbers of a class file stand with their most significant byte first. A reader
is what is left of the data and how far reading has come. Data in memory is measured
before a read, so a read that asks for too much leaves the reader as it was; a stream
ends only when it is read, so such a read consumes what is there.
-/

namespace ClassHeader.Binary

/-! ## Words -/

def toNat (data : Bytes) : Nat := data.foldl (fun n b => n * 256 + b.toNat) 0

def ofNat : Nat → Nat → Bytes
  | 0, _ => []
  | width + 1, n => ofNat width (n / 256) ++ [UInt8.ofNat n]

def u1 (v : UInt8) : Bytes := [v]
def u2 (v : UInt16) : Bytes := ofNat 2 v.toNat
def u4 (v : UInt32) : Bytes := ofNat 4 v.toNat
def u8 (v : UInt64) : Bytes := ofNat 8 v.toNat

/-! ## Readers -/

inductive Source where
  | memory
  | stream
  deriving DecidableEq, Repr

structure Reader where
  source : Source := .memory
  rest : Bytes
  position : Nat := 0
  deriving DecidableEq, Repr

def Reader.remaining? (r : Reader) : Option Nat :=
  match r.source with
  | .memory => some r.rest.length
  | .stream => none

/-- A reading step; the reader after a failure counts as well as after a success. -/
abbrev Read := EStateM Error Reader

namespace Read

def failAt (r : Reader) (message : Bytes) : Error :=
  .context (text "at position " ++ Text.ofNat r.position) (.plain message)

def take (n : Nat) : Read Bytes := fun r =>
  let got := r.rest.take n
  if got.length = n then
    .ok got { r with rest := r.rest.drop n, position := r.position + n }
  else
    let stopped := match r.source with
      | .memory => r
      | .stream => { r with rest := [], position := r.position + got.length }
    .error (failAt stopped (text "unexpected EOF")) stopped

def bytes (n : Int) : Read Bytes := fun r =>
  if n < 0 then .error (failAt r (text "negative length " ++ Text.ofInt n)) r
  else take n.toNat r

/-- The next byte, where the end of the data is no failure of a larger read. -/
def byte : Read UInt8 := fun r =>
  match r.rest with
  | [] => .error (.plain (text "EOF")) r
  | b :: rest => .ok b { r with rest, position := r.position + 1 }

def u1 : Read UInt8 := do return UInt8.ofNat (toNat (← take 1))
def u2 : Read UInt16 := do return UInt16.ofNat (toNat (← take 2))
def u4 : Read UInt32 := do return UInt32.ofNat (toNat (← take 4))
def u8 : Read UInt64 := do return UInt64.ofNat (toNat (← take 8))
def s1 : Read Int8 := do return (← u1).toInt8
def s2 : Read Int16 := do return (← u2).toInt16
def s4 : Read Int32 := do return (← u4).toInt32

def position : Read Nat := do return (← get).position

def times {α : Type} (step : Read α) : Nat → Read (List α)
  | 0 => return []
  | n + 1 => do
    let first ← step
    let others ← times step n
    return first :: others

def runOn {α : Type} (step : Read α) (data : Bytes) (source : Source := .memory) : Result α :=
  match step { source, rest := data } with
  | .ok a _ => .ok a
  | .error e _ => .error e

def mapError {α : Type} (change : Nat → Error → Error) (step : Read α) : Read α := fun r =>
  match step r with
  | .ok a r => .ok a r
  | .error e r => .error (change r.position e) r

def inPart (part : Bytes) (e : Error) : Read Error := do
  return .parse part (← position) e

end Read

/-! ## Sequences of mixed words -/

inductive Datum where
  | u1 (v : UInt8)
  | u2 (v : UInt16)
  | u4 (v : UInt32)
  | u8 (v : UInt64)
  | bytes (data : Bytes)
  deriving DecidableEq, Repr

namespace Datum

def encode : Datum → Bytes
  | .u1 v => Binary.u1 v
  | .u2 v => Binary.u2 v
  | .u4 v => Binary.u4 v
  | .u8 v => Binary.u8 v
  | .bytes data => data

def encodeAll (items : List Datum) : Bytes := items.flatMap encode

def readLike : Datum → Read Datum
  | .u1 _ => return .u1 (← Read.u1)
  | .u2 _ => return .u2 (← Read.u2)
  | .u4 _ => return .u4 (← Read.u4)
  | .u8 _ => return .u8 (← Read.u8)
  | .bytes data => return .bytes (← Read.take data.length)

def lengths (items : List Datum) : List Nat :=
  (items.foldl (fun (written, seen) item =>
    let written := written + item.encode.length
    (written, seen ++ [written])) (0, [])).2

end Datum

end ClassHeader.Binary
