import WeightedKripke.Quantity.Conversion

/-!
# Normalising

A coefficient with a nonzero last digit has no zeros to strip, so a quantity that
is already in normal form comes out of normalisation as it went in.
-/

namespace WeightedKripke

namespace Decimal

theorem trailingZeros_eq_zero {n : Nat} (h : n % 10 ≠ 0) : trailingZeros n = 0 := by
  unfold trailingZeros
  cases n with
  | zero => rfl
  | succ n => simp [trailingZerosFuel, h]

theorem stripZeros_eq_self {n : Nat} (h : n % 10 ≠ 0) : stripZeros n = n := by
  simp [stripZeros, trailingZeros_eq_zero h]

end Decimal

namespace Quantity

theorem coefficient_mod_ne_zero {q : Quantity} (h : q.coefficient ≠ 0) :
    q.coefficient % 10 ≠ 0 := by
  rcases q.normal with hzero | hnonzero
  · exact absurd hzero.1 h
  · exact hnonzero

theorem ofParts_self (q : Quantity) :
    ofParts q.coefficient q.exponent q.coefficient_lt q.exponent_range = .ok q := by
  unfold ofParts
  by_cases hzero : q.coefficient = 0
  · rw [dif_pos hzero, eq_zero_of_coefficient hzero]
  · have hdigit := coefficient_mod_ne_zero hzero
    have hfits : q.exponent + Decimal.trailingZeros q.coefficient < 2 ^ 63 := by
      have hrange := q.exponent_range.2
      rw [Decimal.trailingZeros_eq_zero hdigit]
      omega
    rw [dif_neg hzero, dif_pos hfits]
    congr 1
    ext <;>
      simp [normalForm, Decimal.stripZeros_eq_self hdigit,
        Decimal.trailingZeros_eq_zero hdigit]

theorem ofWords_self (q : Quantity) :
    ofWords (UInt64.ofNat q.coefficient) (Int64.ofInt q.exponent) = .ok q := by
  have hcoefficient : (UInt64.ofNat q.coefficient).toNat = q.coefficient :=
    UInt64.toNat_ofNat_of_lt' q.coefficient_lt
  have hexponent : (Int64.ofInt q.exponent).toInt = q.exponent :=
    Int64.toInt_ofInt_of_le q.exponent_range.1 q.exponent_range.2
  unfold ofWords
  simp only [hcoefficient, hexponent]
  exact ofParts_self q

end Quantity

end WeightedKripke
