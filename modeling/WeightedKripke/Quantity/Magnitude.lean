import WeightedKripke.Quantity.Basic

/-!
# Approximate values of quantities

The nearest double to a coefficient, scaled by a power of ten that is itself
computed in doubles.  For display and rough comparison only.
-/

namespace WeightedKripke

namespace Quantity

/--
Square-and-multiply in doubles, with at most `fuel` squarings.

The factors are multiplied in the order of the exponent's bits, lowest first.
-/
def powerFuel : Nat → Nat → Float → Float → Float
  | 0, _, _, result => result
  | fuel + 1, n, base, result =>
      let result := if n % 2 = 1 then result * base else result
      if n / 2 = 0 then
        result
      else
        powerFuel fuel (n / 2) (base * base) result

/--
A power of ten as a double.

Negative exponents take the reciprocal of the positive power.  Exponents beyond
32 bits are out of the range of doubles on either side.
-/
def powerOfTen (exponent : Int) : Float :=
  if 2 ^ 31 ≤ exponent then
    1.0 / 0.0
  else if exponent < -2 ^ 31 then
    0.0
  else
    let power := powerFuel 32 exponent.natAbs 10.0 1.0
    if exponent < 0 then 1.0 / power else power

def magnitude (q : Quantity) : Float :=
  q.coefficient.toUInt64.toFloat * powerOfTen q.exponent

end Quantity

end WeightedKripke
