import ClassHeader.Text.Basic

/-!
# Decimals of binary floating-point numbers

The shortest decimal that reads back as a number, how it is written, and the number
that is nearest to a decimal.
-/

namespace ClassHeader.Decimal

/-! ## Shortest decimals

A finite number is `significand * 2 ^ exponent`. The decimal chosen for it has the
fewest digits among those that read back as the same number, and is the nearest
of these. -/

structure BinaryFormat where
  fractionBits : Nat
  exponentBits : Nat

def single : BinaryFormat := ⟨23, 8⟩
def double : BinaryFormat := ⟨52, 11⟩

inductive Magnitude where
  | nan
  | infinite
  | zero
  /-- `narrowBelow`: the next smaller number is only half as far away as the next larger. -/
  | finite (significand : Nat) (exponent : Int) (narrowBelow : Bool)

def twoTo (n : Nat) : Nat := Nat.pow 2 n

def tenTo (n : Nat) : Nat := Nat.pow 10 n

def BinaryFormat.isNegative (f : BinaryFormat) (bits : Nat) : Bool :=
  bits.testBit (f.fractionBits + f.exponentBits)

def BinaryFormat.magnitude (f : BinaryFormat) (bits : Nat) : Magnitude :=
  let fraction := bits % twoTo f.fractionBits
  let field := bits / twoTo f.fractionBits % twoTo f.exponentBits
  let bias : Int := (twoTo (f.exponentBits - 1) : Int) - 1 + f.fractionBits
  if field = twoTo f.exponentBits - 1 then
    if fraction = 0 then .infinite else .nan
  else if field = 0 then
    if fraction = 0 then .zero else .finite fraction (1 - bias) false
  else .finite (twoTo f.fractionBits + fraction) (field - bias) (fraction = 0 && 1 < field)

/-- Digits `d₁d₂…dₙ` with the point behind `d₁`, times ten to the `exponent`. -/
structure Digits where
  digits : List Nat
  exponent : Int
  deriving DecidableEq, Repr

def scaled (numerator denominator : Nat) (power : Int) : Nat × Nat :=
  if power < 0 then (numerator, denominator * tenTo power.natAbs)
  else (numerator * tenTo power.natAbs, denominator)

def leadingExponent (numerator denominator : Nat) : Int :=
  if denominator ≤ numerator then ((Nat.toDigits 10 (numerator / denominator)).length : Int) - 1
  else
    match (List.range 400).find? fun k => denominator ≤ numerator * tenTo k with
    | some k => -k
    | none => -400

def dropTrailingZeros (ds : List Nat) : List Nat :=
  (ds.reverse.dropWhile (· = 0)).reverse

def quotient (quarters : Nat) (exponent : Int) : Nat × Nat :=
  let power := exponent - 2
  if power < 0 then (quarters, twoTo power.natAbs) else (quarters * twoTo power.natAbs, 1)

/-- The numbers that read back as `significand * 2 ^ exponent` reach halfway to its neighbours,
the halfway points included when the significand is even. Of the two `n`-digit decimals around
the number this is the one that reads back, or the nearer one if both do. -/
def candidate? (significand : Nat) (exponent : Int) (narrowBelow : Bool) (leading : Int)
    (n : Nat) : Option Nat :=
  let onGrid := fun quarters : Nat =>
    let (top, bottom) := quotient quarters exponent
    scaled top bottom ((n : Int) - 1 - leading)
  let (value, bottom) := onGrid (4 * significand)
  let low := (onGrid (4 * significand - if narrowBelow then 1 else 2)).1
  let high := (onGrid (4 * significand + 2)).1
  let closed := significand % 2 = 0
  let fits := fun c : Nat =>
    if closed then low ≤ c * bottom && c * bottom ≤ high
    else low < c * bottom && c * bottom < high
  let below := value / bottom
  let above := below + 1
  match fits below, fits above with
  | true, true =>
    let down := value - below * bottom
    let up := above * bottom - value
    some (if down < up || (down = up && below % 2 = 0) then below else above)
  | true, false => some below
  | false, true => some above
  | false, false => none

def shortest (significand : Nat) (exponent : Int) (narrowBelow : Bool) : Digits :=
  let (top, bottom) := quotient (4 * significand) exponent
  let leading := leadingExponent top bottom
  let found := ((List.range 17).map (· + 1)).findSome? fun n =>
    (candidate? significand exponent narrowBelow leading n).map fun c => (n, c)
  match found with
  | some (n, c) =>
    let shown := (Nat.toDigits 10 c).map fun d => d.toNat - 48
    { digits := dropTrailingZeros shown, exponent := leading + shown.length - n }
  | none => { digits := [0], exponent := 0 }

/-! ## Notation

Digits are written plainly while the first one stands between the fourth place
behind the point and the sixth before it, and with an exponent otherwise. -/

structure Words where
  nan : Bytes
  infinity : Bytes
  minusInfinity : Bytes

private def figures (ds : List Nat) : Bytes := ds.map fun d => UInt8.ofNat (48 + d)

def Digits.scientific (d : Digits) : Bytes :=
  let tail := d.digits.drop 1
  figures (d.digits.take 1) ++ (if tail.isEmpty then [] else text "." ++ figures tail) ++
    text "e" ++ text (if d.exponent < 0 then "-" else "+") ++
    Text.digits 10 2 d.exponent.natAbs

def Digits.plain (d : Digits) : Bytes :=
  if d.exponent < 0 then
    text "0." ++ figures (List.replicate (d.exponent.natAbs - 1) 0 ++ d.digits)
  else
    let places := d.exponent.toNat + 1
    let whole := d.digits.take places
    let tail := d.digits.drop places
    figures (whole ++ List.replicate (places - whole.length) 0) ++
      if tail.isEmpty then [] else text "." ++ figures tail

def Digits.general (d : Digits) : Bytes :=
  if d.exponent < -4 || 6 ≤ d.exponent then d.scientific else d.plain

def BinaryFormat.renderWith (f : BinaryFormat) (words : Words) (write : Digits → Bytes)
    (bits : Nat) : Bytes :=
  let sign := if f.isNegative bits then text "-" else []
  match f.magnitude bits with
  | .nan => words.nan
  | .infinite => if f.isNegative bits then words.minusInfinity else words.infinity
  | .zero => sign ++ text "0"
  | .finite significand exponent narrowBelow =>
    sign ++ write (shortest significand exponent narrowBelow)

def BinaryFormat.render (f : BinaryFormat) (words : Words) (bits : Nat) : Bytes :=
  f.renderWith words Digits.general bits

def BinaryFormat.renderPlain (f : BinaryFormat) (bits : Nat) : Bytes :=
  f.renderWith ⟨[], [], []⟩ Digits.plain bits

/-! ## Nearest numbers

The number of a binary format that is nearest to a decimal; halfway between two
numbers, the one with the even significand. -/

def roundQuotient (numerator denominator : Nat) : Nat :=
  let below := numerator / denominator
  let left := 2 * (numerator % denominator)
  if denominator < left ∨ (left = denominator ∧ below % 2 = 1) then below + 1 else below

def binaryExponent (numerator denominator : Nat) : Int :=
  let guess : Int := (Nat.log2 numerator : Int) - Nat.log2 denominator
  let reached := if guess < 0 then denominator ≤ numerator * twoTo guess.natAbs
    else denominator * twoTo guess.natAbs ≤ numerator
  if reached then guess else guess - 1

/-- The bits of the number nearest to a positive quotient, unless it is beyond all of them.
Significands and exponents are laid out so that the pattern of a number rounded up to a power of
two is the next one, and numbers below the normal ones need no case of their own. -/
def BinaryFormat.ofQuotient? (f : BinaryFormat) (numerator denominator : Nat) : Option Nat :=
  let bias : Int := (twoTo (f.exponentBits - 1) : Int) - 1 + f.fractionBits
  let exponent := max (binaryExponent numerator denominator - f.fractionBits) (1 - bias)
  let significand :=
    if exponent < 0 then roundQuotient (numerator * twoTo exponent.natAbs) denominator
    else roundQuotient numerator (denominator * twoTo exponent.natAbs)
  let bits := (exponent + bias - 1).toNat * twoTo f.fractionBits + significand
  if bits < (twoTo f.exponentBits - 1) * twoTo f.fractionBits then some bits else none

/-- The bits of the number nearest to `significand * 10 ^ power`, unless it is beyond all of them.
A number whose first digit is more than `reach` places away from the point is too large, or does
not differ from zero. -/
def BinaryFormat.ofDecimal? (f : BinaryFormat) (significand : Nat) (power : Int) : Option Nat :=
  let reach : Int := twoTo f.exponentBits + f.fractionBits
  let places : Int := (Nat.toDigits 10 significand).length + power
  if significand = 0 ∨ places < -reach then some 0
  else if reach < places then none
  else
    let (numerator, denominator) := scaled significand 1 power
    f.ofQuotient? numerator denominator

def BinaryFormat.negate (f : BinaryFormat) (bits : Nat) : Nat :=
  bits + twoTo (f.fractionBits + f.exponentBits)

end ClassHeader.Decimal
