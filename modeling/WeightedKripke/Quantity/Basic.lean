import WeightedKripke.Decimal.Digits

/-!
# Quantities

A quantity is an exact non-negative magnitude `coefficient × 10 ^ exponent` with a
64-bit unsigned coefficient and a 64-bit signed exponent.  It is kept in normal
form: zero is `0 × 10 ^ 0`, and any other coefficient has a nonzero last digit.
The form of a value is unique, so equality of quantities is equality of values.
-/

namespace WeightedKripke

def ExponentRange (exponent : Int) : Prop :=
  -2 ^ 63 ≤ exponent ∧ exponent < 2 ^ 63

instance (exponent : Int) : Decidable (ExponentRange exponent) :=
  inferInstanceAs (Decidable (-2 ^ 63 ≤ exponent ∧ exponent < 2 ^ 63))

/-- Zero is written with exponent zero, any other coefficient ends in a nonzero digit. -/
def IsNormal (coefficient : Nat) (exponent : Int) : Prop :=
  (coefficient = 0 ∧ exponent = 0) ∨ coefficient % 10 ≠ 0

instance (coefficient : Nat) (exponent : Int) :
    Decidable (IsNormal coefficient exponent) :=
  inferInstanceAs
    (Decidable ((coefficient = 0 ∧ exponent = 0) ∨ coefficient % 10 ≠ 0))

@[ext] structure Quantity where
  coefficient : Nat
  exponent : Int
  coefficient_lt : coefficient < 2 ^ 64
  exponent_range : ExponentRange exponent
  normal : IsNormal coefficient exponent
deriving DecidableEq

theorem ExponentRange.min {a b : Int} (ha : ExponentRange a) (hb : ExponentRange b) :
    ExponentRange (min a b) := by
  unfold ExponentRange at *
  omega

theorem ExponentRange.zero : ExponentRange 0 := by
  decide

namespace Quantity

def zero : Quantity where
  coefficient := 0
  exponent := 0
  coefficient_lt := by decide
  exponent_range := ExponentRange.zero
  normal := Or.inl ⟨rfl, rfl⟩

instance : Inhabited Quantity := ⟨zero⟩

def isZero (q : Quantity) : Bool :=
  q.coefficient == 0

theorem exponent_eq_zero {q : Quantity} (h : q.coefficient = 0) : q.exponent = 0 := by
  rcases q.normal with hzero | hnonzero
  · exact hzero.2
  · exact absurd (by rw [h]) hnonzero

theorem eq_zero_of_coefficient {q : Quantity} (h : q.coefficient = 0) : q = zero :=
  Quantity.ext h (exponent_eq_zero h)

/--
The normal form of `coefficient × 10 ^ exponent` for a nonzero coefficient.

Trailing zeros move from the coefficient into the exponent, which has to stay in
range.
-/
def normalForm (coefficient : Nat) (exponent : Int) (nonzero : coefficient ≠ 0)
    (coefficient_lt : coefficient < 2 ^ 64) (exponent_range : ExponentRange exponent)
    (fits : exponent + Decimal.trailingZeros coefficient < 2 ^ 63) : Quantity where
  coefficient := Decimal.stripZeros coefficient
  exponent := exponent + Decimal.trailingZeros coefficient
  coefficient_lt :=
    Nat.lt_of_le_of_lt (Decimal.stripZeros_le coefficient) coefficient_lt
  exponent_range := by
    unfold ExponentRange at *
    omega
  normal := Or.inr (Decimal.stripZeros_mod_ne_zero nonzero)

end Quantity

end WeightedKripke
