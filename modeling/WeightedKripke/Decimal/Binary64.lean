import WeightedKripke.Decimal.Digits

/-!
# Doubles as data

A 64-bit binary floating point word is read as a sign, an integer significand
and a power of two.  The decoded form is what decimal conversion works on: it is
exact and needs no floating point operation.
-/

namespace WeightedKripke

namespace Decimal

/-- What a 64-bit binary floating point word stands for. -/
inductive Binary64 where
  /-- The number `± significand × 2 ^ exponent`. -/
  | finite (negative : Bool) (significand : Nat) (exponent : Int)
  | infinite (negative : Bool)
  | nan
deriving DecidableEq

namespace Binary64

/-- Exponent of the least significant bit of subnormal numbers. -/
def minExponent : Int := -1074

/-- The significand of the powers of two, where the gap below is half the gap above. -/
def hiddenBit : Nat := 2 ^ 52

/-- Decode a word: a sign bit, eleven exponent bits and 52 fraction bits. -/
def ofBits (bits : UInt64) : Binary64 :=
  let word := bits.toNat
  let negative := decide (2 ^ 63 ≤ word)
  let biased : Nat := word / 2 ^ 52 % 2 ^ 11
  let fraction := word % 2 ^ 52
  if biased = 2047 then
    if fraction = 0 then .infinite negative else .nan
  else if biased = 0 then
    .finite negative fraction minExponent
  else
    .finite negative (hiddenBit + fraction) (minExponent + (biased : Int) - 1)

def isZero : Binary64 → Bool
  | .finite _ significand _ => significand == 0
  | _ => false

end Binary64

end Decimal

end WeightedKripke
