import WeightedKripke.Quantity.Conversion
import WeightedKripke.Quantity.Order

/-!
# Exact arithmetic on quantities

Sums and differences are taken at the smaller of the two exponents, products
directly.  A result that is returned is exact and in normal form; where an
intermediate coefficient or the exponent does not fit, the operation reports it
with its operands.
-/

namespace WeightedKripke

namespace Quantity

def maxShift : Nat := 19

/--
The coefficient of `q` when it is written at an exponent not above its own.

It has to fit 64 bits.
-/
def coefficientAt (q : Quantity) (exponent : Int) :
    Except QuantityError { n : Nat // n < 2 ^ 64 } :=
  let shift := (q.exponent - exponent).toNat
  if shift ≤ maxShift then
    if h : q.coefficient * 10 ^ shift < 2 ^ 64 then
      .ok ⟨q.coefficient * 10 ^ shift, h⟩
    else
      .error (.overflow (.alignment q exponent))
  else
    .error (.overflow (.alignment q exponent))

/-- The exact sum.  Zero is neutral without any alignment. -/
def add (a b : Quantity) : Except QuantityError Quantity :=
  if b.coefficient = 0 then
    .ok a
  else if a.coefficient = 0 then
    .ok b
  else do
    let exponent := min a.exponent b.exponent
    let left ← a.coefficientAt exponent
    let right ← b.coefficientAt exponent
    if h : left.val + right.val < 2 ^ 64 then
      ofParts (left.val + right.val) exponent h
        (ExponentRange.min a.exponent_range b.exponent_range)
    else
      .error (.overflow (.sum a b))

/--
The exact difference.

The operands are compared before they are aligned, so a negative difference is
reported as such at any distance of the exponents.
-/
def sub (a b : Quantity) : Except QuantityError Quantity :=
  if b.coefficient = 0 then
    .ok a
  else
    match compare a b with
    | .lt => .error (.underflow a b)
    | .eq => .ok zero
    | .gt => do
        let exponent := min a.exponent b.exponent
        let left ← a.coefficientAt exponent
        let right ← b.coefficientAt exponent
        ofParts (left.val - right.val) exponent
          (Nat.lt_of_le_of_lt (Nat.sub_le left.val right.val) left.property)
          (ExponentRange.min a.exponent_range b.exponent_range)

/--
The exact product.

The coefficient is checked before the exponent; an exponent sum out of range is
reported with the product of the coefficients and the exponent on the left.
-/
def mul (a b : Quantity) : Except QuantityError Quantity :=
  if a.coefficient = 0 ∨ b.coefficient = 0 then
    .ok zero
  else if hc : a.coefficient * b.coefficient < 2 ^ 64 then
    if he : ExponentRange (a.exponent + b.exponent) then
      ofParts (a.coefficient * b.coefficient) (a.exponent + b.exponent) hc he
    else
      .error (.exponentOverflow (a.coefficient * b.coefficient) a.exponent)
  else
    .error (.overflow (.product a b))

@[simp] theorem add_zero (a : Quantity) : add a zero = .ok a := by
  simp [add, zero]

@[simp] theorem zero_add (a : Quantity) : add zero a = .ok a := by
  by_cases h : a.coefficient = 0
  · simp [add, eq_zero_of_coefficient h, zero]
  · simp [add, h, zero]

@[simp] theorem sub_zero (a : Quantity) : sub a zero = .ok a := by
  simp [sub, zero]

@[simp] theorem mul_zero (a : Quantity) : mul a zero = .ok zero := by
  simp [mul, zero]

@[simp] theorem zero_mul (a : Quantity) : mul zero a = .ok zero := by
  simp [mul, zero]

end Quantity

end WeightedKripke
