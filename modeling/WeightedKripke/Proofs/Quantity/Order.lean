import Mathlib.Order.Compare
import WeightedKripke.Proofs.Quantity.Value
import WeightedKripke.Quantity.Order

/-!
# The order of quantities is the order of their values

Different leading powers separate two values by a power of ten.  With one leading
power, both values are their padded coefficient times the same power of ten.
-/

namespace WeightedKripke

namespace Quantity

variable {a b : Quantity}

theorem value_pos (h : a.coefficient ≠ 0) : 0 < a.value :=
  lt_of_le_of_ne a.value_nonneg fun hzero => h (value_eq_zero_iff.1 hzero.symm)

theorem coefficient_ne_zero_of_lt (h : b.value < a.value) : a.coefficient ≠ 0 := by
  intro ha
  rw [value_of_coefficient_eq_zero ha] at h
  exact absurd b.value_nonneg (not_le.2 h)

theorem value_lt_of_leadingPower_lt (hb : b.coefficient ≠ 0)
    (h : a.leadingPower < b.leadingPower) : a.value < b.value := by
  have hupper := Decimal.exact_lt_zpow a.coefficient a.exponent
  have hlower := Decimal.zpow_le_exact hb b.exponent
  have hexponent : a.exponent + Decimal.digitCount a.coefficient ≤
      b.exponent + Decimal.digitCount b.coefficient - 1 := by
    unfold leadingPower at h
    omega
  have hpow := zpow_le_zpow_right₀ (by norm_num : (1 : Rat) ≤ 10) hexponent
  exact lt_of_lt_of_le hupper (hpow.trans hlower)

/-- Padding moves zeros from the exponent behind the coefficient. -/
theorem exact_paddedCoefficient {width : Nat} (h : Decimal.digitCount a.coefficient ≤ width) :
    Decimal.exact (a.paddedCoefficient width) (a.leadingPower - width) = a.value := by
  have hexponent : a.leadingPower - width +
      (width - Decimal.digitCount a.coefficient : Nat) = a.exponent := by
    unfold leadingPower
    omega
  rw [paddedCoefficient, Decimal.exact_mul_pow, hexponent]
  rfl

theorem compare_paddedCoefficient {width : Nat} (hpower : a.leadingPower = b.leadingPower)
    (ha : Decimal.digitCount a.coefficient ≤ width)
    (hb : Decimal.digitCount b.coefficient ≤ width) :
    compare (a.paddedCoefficient width) (b.paddedCoefficient width) =
      compare a.value b.value := by
  have hleft := exact_paddedCoefficient ha
  have hright := exact_paddedCoefficient hb
  rw [← hpower] at hright
  rw [← hleft, ← hright]
  rcases lt_trichotomy (a.paddedCoefficient width) (b.paddedCoefficient width) with
    hlt | heq | hgt
  · rw [compare_lt_iff_lt.2 hlt, compare_lt_iff_lt.2 (Decimal.exact_lt_exact_iff.2 hlt)]
  · rw [heq, compare_eq_iff_eq.2 rfl, compare_eq_iff_eq.2 rfl]
  · rw [compare_gt_iff_gt.2 hgt, compare_gt_iff_gt.2 (Decimal.exact_lt_exact_iff.2 hgt)]

theorem compareNonzero_eq (ha : a.coefficient ≠ 0) (hb : b.coefficient ≠ 0) :
    compareNonzero a b = compare a.value b.value := by
  unfold compareNonzero
  rcases lt_trichotomy a.leadingPower b.leadingPower with hlt | heq | hgt
  · have hvalue := value_lt_of_leadingPower_lt hb hlt
    rw [compare_lt_iff_lt.2 hlt, compare_lt_iff_lt.2 hvalue]
    rfl
  · rw [compare_eq_iff_eq.2 heq]
    exact compare_paddedCoefficient heq (Nat.le_max_left _ _) (Nat.le_max_right _ _)
  · have hvalue := value_lt_of_leadingPower_lt ha hgt
    rw [compare_gt_iff_gt.2 hgt, compare_gt_iff_gt.2 hvalue]
    rfl

theorem compare_eq_compare_value (a b : Quantity) :
    compare a b = compare a.value b.value := by
  show Quantity.compare a b = compare a.value b.value
  unfold Quantity.compare
  by_cases ha : a.coefficient = 0
  · have hvalue := value_of_coefficient_eq_zero ha
    by_cases hb : b.coefficient = 0
    · rw [if_pos ha, if_pos hb, hvalue, value_of_coefficient_eq_zero hb]
      exact (compare_eq_iff_eq.2 rfl).symm
    · rw [if_pos ha, if_neg hb, hvalue]
      exact (compare_lt_iff_lt.2 (value_pos hb)).symm
  · by_cases hb : b.coefficient = 0
    · rw [if_neg ha, if_pos hb, value_of_coefficient_eq_zero hb]
      exact (compare_gt_iff_gt.2 (value_pos ha)).symm
    · rw [if_neg ha, if_neg hb]
      exact compareNonzero_eq ha hb

end Quantity

end WeightedKripke
