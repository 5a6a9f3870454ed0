import WeightedKripke.Quantity.Error

/-!
# Making quantities from numbers

`ofParts` normalises a coefficient and an exponent; it fails exactly when the
trailing zeros of the coefficient push the exponent out of range.  Unsigned
words always convert, signed words and doubles when they are not negative.  A
double is taken at its shortest decimal digits.
-/

namespace WeightedKripke

namespace Quantity

/-- The quantity `coefficient × 10 ^ exponent`, unless its exponent leaves the range. -/
def ofParts (coefficient : Nat) (exponent : Int) (coefficient_lt : coefficient < 2 ^ 64)
    (exponent_range : ExponentRange exponent) : Except QuantityError Quantity :=
  if nonzero : coefficient = 0 then
    .ok zero
  else if fits : exponent + Decimal.trailingZeros coefficient < 2 ^ 63 then
    .ok (normalForm coefficient exponent nonzero coefficient_lt exponent_range fits)
  else
    .error (.exponentOverflow coefficient exponent)

theorem exponentRange_toInt (word : Int64) : ExponentRange word.toInt :=
  ⟨Int64.le_toInt word, Int64.toInt_lt word⟩

def ofWords (coefficient : UInt64) (exponent : Int64) : Except QuantityError Quantity :=
  ofParts coefficient.toNat exponent.toInt coefficient.toNat_lt
    (exponentRange_toInt exponent)

def ofNat (n : Nat) (h : n < 2 ^ 64) : Quantity :=
  if nonzero : n = 0 then
    zero
  else
    normalForm n 0 nonzero h ExponentRange.zero (by
      have := Decimal.trailingZeros_lt (Nat.lt_trans h (by decide : 2 ^ 64 < 10 ^ 20))
        (by decide)
      omega)

def ofUInt64 (n : UInt64) : Quantity :=
  ofNat n.toNat n.toNat_lt

def ofUInt32 (n : UInt32) : Quantity :=
  ofUInt64 n.toUInt64

def ofInt64 (i : Int64) : Except QuantityError Quantity :=
  if i.toInt < 0 then
    .error (.negative (.integer i.toInt))
  else
    .ok (ofNat i.toInt.toNat (by
      have := Int64.toInt_lt i
      omega))

/--
A double as the quantity with the same shortest decimal digits.

Integers are read as a whole and have to fit a coefficient; other numbers keep
their digits as coefficient.  Both zeros give the zero quantity.
-/
def ofBinary64 (x : Decimal.Binary64) : Except QuantityError Quantity :=
  match x with
  | .nan => .error (.nonFinite x)
  | .infinite _ => .error (.nonFinite x)
  | .finite negative significand exponent =>
      if significand = 0 then
        .ok zero
      else if negative then
        .error (.negative (.double x))
      else
        let (digits, power) := Decimal.shortest significand exponent
        if 0 ≤ power then
          if h : digits * 10 ^ power.toNat < 2 ^ 64 then
            .ok (ofNat (digits * 10 ^ power.toNat) h)
          else
            .error (.overflow (.double x))
        else if h : digits < 2 ^ 64 ∧ ExponentRange power then
          ofParts digits power h.1 h.2
        else
          .error (.overflow (.double x))

theorem ofParts_zero_exponent (n : Nat) (h : n < 2 ^ 64) :
    ofParts n 0 h ExponentRange.zero = .ok (ofNat n h) := by
  unfold ofParts ofNat
  split
  · rfl
  · rename_i hnonzero
    have := Decimal.trailingZeros_lt (Nat.lt_trans h (by decide : 2 ^ 64 < 10 ^ 20))
      (by decide)
    rw [dif_pos (by omega)]

end Quantity

end WeightedKripke
