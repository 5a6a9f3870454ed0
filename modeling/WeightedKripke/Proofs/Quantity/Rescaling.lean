import WeightedKripke.Proofs.Quantity.Alignment
import WeightedKripke.Proofs.Quantity.Label
import WeightedKripke.Proofs.Quantity.Stripping

/-!
# Rescaling to a multiple of three

The exponent moves down to the next multiple of three, by the remainder that is not
negative also for negative exponents, and the coefficient gains as many zeros.  Only the
two least exponents have no multiple of three below them in range; they stay as they are.
-/

namespace WeightedKripke

namespace Quantity

/-- The number of places that an exponent is above the next multiple of three. -/
def placesAbove (exponent : Int) : Nat :=
  (exponent % 3).toNat

/-- The exponents from which the next multiple of three is out of range. -/
def LeastExponent (exponent : Int) : Prop :=
  exponent = -2 ^ 63 ∨ exponent = -2 ^ 63 + 1

variable {q : Quantity}

theorem placesAbove_le (exponent : Int) : placesAbove exponent ≤ 2 := by
  unfold placesAbove
  omega

theorem leastExponent_iff (q : Quantity) :
    LeastExponent q.exponent ↔ q.exponent - q.exponent % 3 < -2 ^ 63 := by
  have hrange := q.exponent_range.1
  unfold LeastExponent
  omega

theorem rescale_of_least (h : LeastExponent q.exponent) : q.rescale = q.scaled :=
  rescale_of_lt ((leastExponent_iff q).1 h)

theorem rescale_of_not_least (h : ¬ LeastExponent q.exponent) :
    q.rescale.coefficient = q.coefficient * 10 ^ placesAbove q.exponent ∧
      q.rescale.exponent = q.exponent - placesAbove q.exponent := by
  rw [leastExponent_iff, Int.not_lt] at h
  obtain ⟨hcoefficient, hexponent⟩ := rescale_of_le h
  refine ⟨hcoefficient, ?_⟩
  unfold placesAbove
  omega

/-- A coefficient of 64 bits has room for two zeros in a word of 128 bits. -/
theorem mul_pow_placesAbove_lt {coefficient : Nat} (h : coefficient < 2 ^ 64) (exponent : Int) :
    coefficient * 10 ^ placesAbove exponent < 2 ^ 128 := by
  have hpow : 10 ^ placesAbove exponent ≤ 10 ^ 2 :=
    Nat.pow_le_pow_right (by decide) (placesAbove_le exponent)
  calc
    coefficient * 10 ^ placesAbove exponent ≤ coefficient * 10 ^ 2 :=
      Nat.mul_le_mul_left coefficient hpow
    _ < 2 ^ 128 := by omega

theorem rescale_exponent_le (q : Quantity) :
    q.rescale.exponent ≤ q.exponent ∧ q.exponent ≤ q.rescale.exponent + 2 := by
  by_cases h : LeastExponent q.exponent
  · rw [rescale_of_least h]
    have hscaled : q.scaled.exponent = q.exponent := rfl
    omega
  · have hplaces := placesAbove_le q.exponent
    rw [(rescale_of_not_least h).2]
    omega

theorem three_dvd_rescale_exponent_iff (q : Quantity) :
    3 ∣ q.rescale.exponent ↔ ¬ LeastExponent q.exponent := by
  by_cases h : LeastExponent q.exponent
  · have hscaled : q.scaled.exponent = q.exponent := rfl
    refine iff_of_false ?_ (not_not.2 h)
    rw [rescale_of_least h, hscaled]
    unfold LeastExponent at h
    omega
  · refine iff_of_true ?_ h
    rw [(rescale_of_not_least h).2]
    unfold placesAbove
    omega

/-- The rescaled pair, where it fits the words of a quantity, is normalised to the quantity. -/
theorem ofWords_rescale {c : UInt64} {e : Int64} (hc : c.toNat = q.rescale.coefficient)
    (he : e.toInt = q.rescale.exponent) : ofWords c e = .ok q := by
  apply ofWords_eq_ok_of_value
  rw [hc, he, exact_rescale]

/--
Rescaling keeps the value and moves the exponent down to a multiple of three, by at most
two places, and no coefficient of 64 bits exceeds 128 bits by that.

From the two least exponents, and from no other, no multiple of three is reached: their
pairs are returned as they are.  Normalising takes a rescaled pair back to the quantity.
-/
theorem rescale_keeps_value (q : Quantity) :
    Decimal.exact q.rescale.coefficient q.rescale.exponent = q.value ∧
      (q.rescale.exponent ≤ q.exponent ∧ q.exponent - q.rescale.exponent ≤ 2) ∧
      (∀ coefficient, coefficient < 2 ^ 64 →
        coefficient * 10 ^ placesAbove q.exponent < 2 ^ 128) ∧
      (3 ∣ q.rescale.exponent ↔ ¬ LeastExponent q.exponent) ∧
      (¬ LeastExponent q.exponent →
        q.rescale.coefficient = q.coefficient * 10 ^ placesAbove q.exponent) ∧
      (LeastExponent q.exponent →
        q.rescale.coefficient = q.coefficient ∧ q.rescale.exponent = q.exponent) ∧
      (q.coefficient = 0 → q.rescale.coefficient = 0 ∧ q.rescale.exponent = 0) ∧
      (∀ (c : UInt64) (e : Int64), c.toNat = q.rescale.coefficient →
        e.toInt = q.rescale.exponent → ofWords c e = .ok q) := by
  have hexponent := rescale_exponent_le q
  refine ⟨exact_rescale q, ⟨hexponent.1, by omega⟩,
    fun _ h => mul_pow_placesAbove_lt h q.exponent, three_dvd_rescale_exponent_iff q,
    fun h => (rescale_of_not_least h).1, ?_, ?_, fun _ _ => ofWords_rescale⟩
  · intro hleast
    rw [rescale_of_least hleast]
    exact ⟨rfl, rfl⟩
  · intro hzero
    rw [eq_zero_of_coefficient hzero]
    exact ⟨rfl, rfl⟩

/--
A wide coefficient gains a zero beyond 64 bits, one place below zero is two places above a
multiple of three, and the least exponent stays.
-/
theorem rescale_keeps_value_at_limits :
    (3 ∣ wideTens.rescale.exponent ∧ wideTens.rescale.coefficient = (2 ^ 64 - 3) * 10) ∧
      ofWords 500 (-3) = .ok half ∧
      (¬ 3 ∣ bottomOne.rescale.exponent ∧ bottomOne.rescale.exponent = -2 ^ 63) := by
  have hleast : LeastExponent bottomOne.exponent := Or.inl rfl
  have hnot : ¬ LeastExponent wideTens.exponent := by
    unfold LeastExponent
    decide
  obtain ⟨-, -, -, hwide, hcoefficient, -⟩ := rescale_keeps_value wideTens
  obtain ⟨-, -, -, -, -, -, -, hback⟩ := rescale_keeps_value half
  obtain ⟨-, -, -, hbottom, -, hstays, -⟩ := rescale_keeps_value bottomOne
  exact ⟨⟨hwide.2 hnot, (hcoefficient hnot).trans (by decide)⟩,
    hback 500 (-3) (by decide) (by decide), fun h => hbottom.1 h hleast, (hstays hleast).2⟩

end Quantity

end WeightedKripke
