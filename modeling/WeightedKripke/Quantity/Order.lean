import WeightedKripke.Quantity.Basic

/-!
# The order of quantities

Quantities are compared by their exact values.  The power of ten of the leading
digit decides first; only coefficients with the same leading power are brought to
one length, so no power of ten beyond the digits of a coefficient is computed.
-/

namespace WeightedKripke

namespace Quantity

/-- One more than the power of ten of the leading digit. -/
def leadingPower (q : Quantity) : Int :=
  q.exponent + Decimal.digitCount q.coefficient

/-- The coefficient followed by zeros up to the given number of digits. -/
def paddedCoefficient (q : Quantity) (width : Nat) : Nat :=
  q.coefficient * 10 ^ (width - Decimal.digitCount q.coefficient)

def compareNonzero (a b : Quantity) : Ordering :=
  let width := max (Decimal.digitCount a.coefficient) (Decimal.digitCount b.coefficient)
  (compare a.leadingPower b.leadingPower).then
    (compare (a.paddedCoefficient width) (b.paddedCoefficient width))

/-- Exact numeric order. -/
protected def compare (a b : Quantity) : Ordering :=
  if a.coefficient = 0 then
    if b.coefficient = 0 then .eq else .lt
  else if b.coefficient = 0 then
    .gt
  else
    compareNonzero a b

instance : Ord Quantity := ⟨Quantity.compare⟩

instance : LE Quantity := leOfOrd

instance : LT Quantity := ltOfOrd

instance : Min Quantity := ⟨fun a b => if (compare a b).isLE then a else b⟩

instance : Max Quantity := ⟨fun a b => if (compare a b).isLE then b else a⟩

end Quantity

end WeightedKripke
