import Mathlib.Algebra.Order.Group.Unbundled.Basic
import WeightedKripke.Proofs.Quantity.Arithmetic

/-!
# Comparing quantities

The order of quantities is a total order in which only equal quantities agree, since
it is that of their values.  Nothing that a comparison computes exceeds 128 bits, at
whatever distance the exponents are, and adding one quantity to both sides keeps the
order.
-/

namespace WeightedKripke

namespace Quantity

variable {a b c : Quantity}

theorem compare_eq_lt_iff : compare a b = .lt ↔ a.value < b.value := by
  rw [compare_eq_compare_value, compare_lt_iff_lt]

theorem compare_eq_eq_iff_value : compare a b = .eq ↔ a.value = b.value := by
  rw [compare_eq_compare_value, compare_eq_iff_eq]

/-! ## A total order -/

instance : Std.TransOrd Quantity where
  eq_swap {a b} := by
    rw [compare_eq_compare_value, compare_eq_compare_value]
    exact Std.OrientedCmp.eq_swap
  isLE_trans hab hbc := by
    rw [compare_eq_compare_value] at hab hbc ⊢
    exact Std.TransCmp.isLE_trans hab hbc

instance : Std.LawfulEqOrd Quantity where
  compare_self := compare_eq_eq_iff_value.2 rfl
  eq_of_compare h := value_injective (compare_eq_eq_iff_value.1 h)

theorem isLE_total (a b : Quantity) : (compare a b).isLE ∨ (compare b a).isLE := by
  have hswap : compare b a = (compare a b).swap := Std.OrientedCmp.eq_swap
  rw [hswap]
  cases compare a b <;> decide

/-! ## The numbers that a comparison computes -/

/-- The length to which `compareNonzero` pads the coefficients of two quantities. -/
def commonWidth (a b : Quantity) : Nat :=
  max (Decimal.digitCount a.coefficient) (Decimal.digitCount b.coefficient)

/-- What is computed of one operand when coefficients are padded to `width` digits. -/
structure FitsComparison (q : Quantity) (width : Nat) : Prop where
  /-- The leading power is a signed number of 128 bits. -/
  leadingPower_range : -2 ^ 127 ≤ q.leadingPower ∧ q.leadingPower < 2 ^ 127
  /-- The number of zeros to add is not negative. -/
  digitCount_le : Decimal.digitCount q.coefficient ≤ width
  padding_lt : 10 ^ (width - Decimal.digitCount q.coefficient) < 2 ^ 128
  paddedCoefficient_lt : q.paddedCoefficient width < 2 ^ 128

/-- All that is computed of two nonzero quantities is what `FitsComparison` bounds. -/
theorem compare_at_commonWidth (ha : a.coefficient ≠ 0) (hb : b.coefficient ≠ 0) :
    compare a b =
      (compare a.leadingPower b.leadingPower).then
        (compare (a.paddedCoefficient (commonWidth a b))
          (b.paddedCoefficient (commonWidth a b))) := by
  change Quantity.compare a b = _
  unfold Quantity.compare
  rw [if_neg ha, if_neg hb]
  rfl

theorem digitCount_coefficient_le (q : Quantity) : Decimal.digitCount q.coefficient ≤ 20 :=
  Decimal.digitCount_le (Nat.lt_trans q.coefficient_lt (by decide)) (by decide)

theorem paddedCoefficient_lt_pow {q : Quantity} {width : Nat}
    (h : Decimal.digitCount q.coefficient ≤ width) : q.paddedCoefficient width < 10 ^ width := by
  have hpow : 10 ^ width =
      10 ^ Decimal.digitCount q.coefficient *
        10 ^ (width - Decimal.digitCount q.coefficient) := by
    rw [← Nat.pow_add, Nat.add_sub_cancel' h]
  rw [paddedCoefficient, hpow]
  exact Nat.mul_lt_mul_of_pos_right (Decimal.lt_pow_digitCount q.coefficient)
    (Nat.pow_pos (by decide))

theorem fitsComparison_of_le {q : Quantity} {width : Nat}
    (hcount : Decimal.digitCount q.coefficient ≤ width) (hwidth : width ≤ 20) :
    FitsComparison q width where
  leadingPower_range := by
    have hrange := q.exponent_range
    have hdigits := digitCount_coefficient_le q
    unfold ExponentRange at hrange
    unfold leadingPower
    omega
  digitCount_le := hcount
  padding_lt := by
    have hpow : 10 ^ (width - Decimal.digitCount q.coefficient) ≤ 10 ^ 20 :=
      Nat.pow_le_pow_right (by decide) (by omega)
    exact Nat.lt_of_le_of_lt hpow (by decide)
  paddedCoefficient_lt := by
    have hpow : 10 ^ width ≤ 10 ^ 20 := Nat.pow_le_pow_right (by decide) hwidth
    exact Nat.lt_of_lt_of_le (paddedCoefficient_lt_pow hcount)
      (Nat.le_trans hpow (by decide))

theorem commonWidth_le (a b : Quantity) : commonWidth a b ≤ 20 :=
  Nat.max_le.2 ⟨digitCount_coefficient_le a, digitCount_coefficient_le b⟩

/-! ## The same summand on both sides -/

theorem compare_of_add {s t : Quantity} (hs : add a c = .ok s) (ht : add b c = .ok t) :
    compare s t = compare a b := by
  rw [compare_eq_compare_value, compare_eq_compare_value a b, value_of_add hs,
    value_of_add ht, ← cmp_eq_compare, ← cmp_eq_compare, cmp_add_right]

/--
Quantities compare as their exact values do, which makes their order total, with
equality for equal quantities only.

Nonzero quantities are compared by their leading powers and padded coefficients, which
do not exceed 128 bits, and sums with one quantity compare as the quantities do.
-/
theorem compare_exact (a b c : Quantity) :
    ((compare a b = .lt ↔ a.value < b.value) ∧ (compare a b = .eq ↔ a.value = b.value) ∧
        (compare a b = .gt ↔ b.value < a.value)) ∧
      (compare a b = .eq ↔ a = b) ∧ compare b a = (compare a b).swap ∧
      ((compare a b).isLE ∨ (compare b a).isLE) ∧
      ((compare a b).isLE → (compare b c).isLE → (compare a c).isLE) ∧
      (a.coefficient ≠ 0 → b.coefficient ≠ 0 → compare a b =
        (compare a.leadingPower b.leadingPower).then
          (compare (a.paddedCoefficient (commonWidth a b))
            (b.paddedCoefficient (commonWidth a b)))) ∧
      FitsComparison a (commonWidth a b) ∧ FitsComparison b (commonWidth a b) ∧
      (∀ s t, add a c = .ok s → add b c = .ok t → compare s t = compare a b) := by
  have hwidth := commonWidth_le a b
  exact ⟨⟨compare_eq_lt_iff, compare_eq_eq_iff_value, compare_eq_gt_iff⟩,
    Std.LawfulEqOrd.compare_eq_iff_eq, Std.OrientedCmp.eq_swap, isLE_total a b,
    Std.TransCmp.isLE_trans, compare_at_commonWidth,
    fitsComparison_of_le (Nat.le_max_left _ _) hwidth,
    fitsComparison_of_le (Nat.le_max_right _ _) hwidth, fun _ _ => compare_of_add⟩

/-- The order reaches up to the largest exponent, and sums at that exponent keep it. -/
theorem compare_exact_at_limits :
    (compare widest topOne).isLE ∧
      ∃ s t, add topFive topOne = .ok s ∧ add topEleven topOne = .ok t ∧
        compare s t = .lt := by
  obtain ⟨-, -, -, -, htrans, -⟩ := compare_exact widest tooFar topOne
  obtain ⟨-, -, -, -, -, -, -, -, hsums⟩ := compare_exact topFive topEleven topOne
  obtain ⟨s, hs⟩ : ∃ s, add topFive topOne = .ok s := ⟨_, rfl⟩
  obtain ⟨t, ht⟩ : ∃ t, add topEleven topOne = .ok t := ⟨_, rfl⟩
  have hlt : compare topFive topEleven = .lt := by decide
  exact ⟨htrans (by decide) (by decide), s, t, hs, ht, (hsums s t hs ht).trans hlt⟩

end Quantity

end WeightedKripke
