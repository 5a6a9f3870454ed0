import WeightedKripke.Decimal.Binary64

/-!
# Shortest decimal digits of a double

A finite positive double stands for an interval of real numbers: those that round
to it.  `shortest` returns the decimal with the fewest digits inside that
interval, and among those the one nearest to the double; of two equally near ones
it takes the larger.  All arithmetic is exact and on natural numbers.

`Binary64.text` writes these digits positionally, never with an exponent.
-/

namespace WeightedKripke

namespace Decimal

/-- A positive rational with the ends of an interval around it, over one denominator. -/
structure RoundingInterval where
  lower : Nat
  value : Nat
  upper : Nat
  denominator : Nat
  /-- Whether the two ends belong to the interval. -/
  closed : Bool

namespace RoundingInterval

/--
The numbers that round to `significand × 2 ^ exponent`.

The ends lie halfway to the neighbours; above a power of two the gap is twice the
gap below it, unless the numbers below are subnormal.  Ties go to even
significands, so these own their ends.
-/
def ofBinary (significand : Nat) (exponent : Int) : RoundingInterval :=
  let numerator := 2 ^ exponent.toNat
  let below :=
    if significand = Binary64.hiddenBit ∧ Binary64.minExponent < exponent then 1 else 2
  { lower := (4 * significand - below) * numerator
    value := 4 * significand * numerator
    upper := (4 * significand + 2) * numerator
    denominator := 4 * 2 ^ (-exponent).toNat
    closed := significand % 2 == 0 }

def contains (i : RoundingInterval) (digits : Nat) (power : Int) : Bool :=
  let candidate := digits * 10 ^ power.toNat * i.denominator
  let scale := 10 ^ (-power).toNat
  if i.closed then
    i.lower * scale ≤ candidate && candidate ≤ i.upper * scale
  else
    i.lower * scale < candidate && candidate < i.upper * scale

def leadingPower (i : RoundingInterval) : Int :=
  let estimate : Int := (digitCount i.value : Int) - digitCount i.denominator
  if i.denominator * 10 ^ estimate.toNat ≤ i.value * 10 ^ (-estimate).toNat then
    estimate
  else
    estimate - 1

/--
The decimal nearest to the value among its two neighbours on the grid of
multiples of `10 ^ power` that lie in the interval.
-/
def onGrid? (i : RoundingInterval) (power : Int) : Option Nat :=
  let numerator := i.value * 10 ^ (-power).toNat
  let divisor := i.denominator * 10 ^ power.toNat
  let below := numerator / divisor
  let nearest := if divisor ≤ 2 * (numerator % divisor) then below + 1 else below
  let other := if nearest = below then below + 1 else below
  if i.contains nearest power then
    some nearest
  else if i.contains other power then
    some other
  else
    none

/-- Try ever finer grids, `fuel` more of them; the last resort is the value's own floor. -/
def searchFuel (i : RoundingInterval) : Nat → Int → Nat × Int
  | 0, power => (i.value * 10 ^ (-power).toNat / (i.denominator * 10 ^ power.toNat), power)
  | fuel + 1, power =>
      match i.onGrid? power with
      | some digits => (digits, power)
      | none => searchFuel i fuel (power - 1)

end RoundingInterval

/-- Seventeen significant digits tell any two doubles apart. -/
def sufficientDigits : Nat := 17

/--
Digits and power of ten of the shortest decimal for `significand × 2 ^ exponent`.

The digits carry no trailing zeros.
-/
def shortest (significand : Nat) (exponent : Int) : Nat × Int :=
  let interval := RoundingInterval.ofBinary significand exponent
  let (digits, power) := interval.searchFuel sufficientDigits interval.leadingPower
  (stripZeros digits, power + trailingZeros digits)

def positionalText (digits : Nat) (power : Int) : List Char :=
  let run := natText digits
  if 0 ≤ power then
    run ++ List.replicate power.toNat '0'
  else
    let places := (-power).toNat
    if places < run.length then
      run.take (run.length - places) ++ '.' :: run.drop (run.length - places)
    else
      '0' :: '.' :: (List.replicate (places - run.length) '0' ++ run)

namespace Binary64

def magnitudeText (significand : Nat) (exponent : Int) : List Char :=
  if significand = 0 then
    ['0']
  else
    let (digits, power) := shortest significand exponent
    positionalText digits power

/-- Text of a double: the shortest digits that read back, in positional notation. -/
def text : Binary64 → List Char
  | .finite false significand exponent => magnitudeText significand exponent
  | .finite true significand exponent => '-' :: magnitudeText significand exponent
  | .infinite false => ['i', 'n', 'f']
  | .infinite true => ['-', 'i', 'n', 'f']
  | .nan => ['N', 'a', 'N']

end Binary64

end Decimal

end WeightedKripke
