import ClassHeader.Text.Basic

/-!
# BLAKE2b

The digest of 32 bytes, without a key. Data is taken in blocks of 128 bytes, which
twelve rounds mix into a state of eight words.
-/

namespace ClassHeader.Blake2b

def initial : List UInt64 :=
  [0x6a09e667f3bcc908, 0xbb67ae8584caa73b, 0x3c6ef372fe94f82b, 0xa54ff53a5f1d36f1,
    0x510e527fade682d1, 0x9b05688c2b3e6c1f, 0x1f83d9abfb41bd6b, 0x5be0cd19137e2179]

def schedule : List (List Nat) :=
  [[0, 1, 2, 3, 4, 5, 6, 7, 8, 9, 10, 11, 12, 13, 14, 15],
    [14, 10, 4, 8, 9, 15, 13, 6, 1, 12, 0, 2, 11, 7, 5, 3],
    [11, 8, 12, 0, 5, 2, 15, 13, 10, 14, 3, 6, 7, 1, 9, 4],
    [7, 9, 3, 1, 13, 12, 11, 14, 2, 6, 5, 10, 4, 0, 15, 8],
    [9, 0, 5, 7, 2, 4, 10, 15, 14, 1, 11, 12, 6, 8, 3, 13],
    [2, 12, 6, 10, 0, 11, 8, 3, 4, 13, 7, 5, 15, 14, 1, 9],
    [12, 5, 1, 15, 14, 13, 4, 10, 0, 7, 6, 3, 9, 2, 8, 11],
    [13, 11, 7, 14, 12, 1, 3, 9, 5, 0, 15, 4, 8, 6, 2, 10],
    [6, 15, 14, 9, 11, 3, 0, 8, 12, 2, 13, 7, 1, 4, 10, 5],
    [10, 2, 8, 4, 7, 6, 1, 5, 15, 11, 9, 14, 3, 12, 13, 0]]

def lanes : List (Nat × Nat × Nat × Nat) :=
  [(0, 4, 8, 12), (1, 5, 9, 13), (2, 6, 10, 14), (3, 7, 11, 15),
    (0, 5, 10, 15), (1, 6, 11, 12), (2, 7, 8, 13), (3, 4, 9, 14)]

def rotateRight (x : UInt64) (n : Nat) : UInt64 :=
  (x >>> UInt64.ofNat n) ||| (x <<< UInt64.ofNat (64 - n))

def word (words : List UInt64) (i : Nat) : UInt64 := (words[i]?).getD 0

def mix (state : List UInt64) (lane : Nat × Nat × Nat × Nat) (x y : UInt64) : List UInt64 :=
  let (ia, ib, ic, id) := lane
  let a := word state ia + word state ib + x
  let d := rotateRight (word state id ^^^ a) 32
  let c := word state ic + d
  let b := rotateRight (word state ib ^^^ c) 24
  let a := a + b + y
  let d := rotateRight (d ^^^ a) 16
  let c := c + d
  let b := rotateRight (b ^^^ c) 63
  (((state.set ia a).set ib b).set ic c).set id d

def round (block : List UInt64) (state : List UInt64) (order : List Nat) : List UInt64 :=
  lanes.zipIdx.foldl (fun state (lane, i) =>
    mix state lane (word block ((order[2 * i]?).getD 0)) (word block ((order[2 * i + 1]?).getD 0)))
    state

/-- Takes a block into the state; `count` is the number of bytes taken so far, this block
included. -/
def compress (state : List UInt64) (block : List UInt64) (count : Nat) (isLast : Bool) :
    List UInt64 :=
  let start := state ++ initial
  let start := start.set 12 (word start 12 ^^^ UInt64.ofNat count)
  let start := start.set 13 (word start 13 ^^^ UInt64.ofNat (count >>> 64))
  let start := if isLast then start.set 14 (~~~word start 14) else start
  let mixed := (schedule ++ schedule.take 2).foldl (round block) start
  (List.range 8).map fun i => word state i ^^^ word mixed i ^^^ word mixed (i + 8)

def wordOf (bytes : Bytes) : UInt64 :=
  bytes.foldr (fun b n => n * 256 + b.toUInt64) 0

def bytesOf (w : UInt64) : Bytes :=
  (List.range 8).map fun i => (w >>> UInt64.ofNat (8 * i)).toUInt8

def blockOf (data : Bytes) : List UInt64 :=
  (List.range 16).map fun i => wordOf ((data.drop (8 * i)).take 8)

/-- Takes in data, of which `count` bytes were taken before. The last block may be short, and is
empty only for empty data. -/
def absorb (state : List UInt64) (count : Nat) (data : Bytes) : List UInt64 :=
  if data.length ≤ 128 then compress state (blockOf data) (count + data.length) true
  else absorb (compress state (blockOf (data.take 128)) (count + 128) false) (count + 128)
    (data.drop 128)
termination_by data.length
decreasing_by simp only [List.length_drop]; omega

/-- The parameters are a length of 32 bytes, no key, and one chunk. -/
def start : List UInt64 := initial.set 0 (word initial 0 ^^^ 0x01010020)

def digest (data : Bytes) : Bytes := ((absorb start 0 data).take 4).flatMap bytesOf

end ClassHeader.Blake2b
