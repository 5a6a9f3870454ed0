import Mathlib.Tactic.NormNum
import WeightedKripke.Proofs.Quantity.Cancellation
import WeightedKripke.Proofs.Quantity.Product

/-!
# Results that a quantity can hold

Zeros are stripped from a result only after its coefficient was computed, so an
operation needs more room than its result does.  An exact result that is the value of a
quantity is returned when the coefficients and the exponent that come up on the way fit
as well.  Where they do not, the operation fails though the result could be held.
-/

namespace WeightedKripke

namespace Quantity

variable {a b q : Quantity}

/-- Room for a sum: no alignment is needed, or the aligned sum fits a coefficient. -/
def SumFits (a b : Quantity) : Prop :=
  a.coefficient = 0 ∨ b.coefficient = 0 ∨ alignedSum a b < 2 ^ 64

/-- Room for a difference: nothing is taken off, or the aligned left operand fits. -/
def DifferenceFits (a b : Quantity) : Prop :=
  b.coefficient = 0 ∨ a.scaledTo (commonExponent a b) < 2 ^ 64

def ExponentsFit (a b : Quantity) : Prop :=
  -2 ^ 63 ≤ a.exponent + b.exponent

/-! ## Sums -/

theorem add_of_fits (hvalue : q.value = a.value + b.value) (hfits : SumFits a b) :
    add a b = .ok q := by
  by_cases hb : b.coefficient = 0
  · rw [value_of_coefficient_eq_zero hb, Rat.add_zero] at hvalue
    rw [eq_zero_of_coefficient hb, add_zero, value_injective hvalue]
  · by_cases ha : a.coefficient = 0
    · rw [value_of_coefficient_eq_zero ha, Rat.zero_add] at hvalue
      rw [eq_zero_of_coefficient ha, zero_add, value_injective hvalue]
    · have hsize := (hfits.resolve_left ha).resolve_left hb
      exact (add_eq_ok_iff ha hb).2 ⟨hvalue, hsize⟩

theorem add_of_not_fits (hfits : ¬ SumFits a b) :
    ∃ cause, add a b = .error (.overflow cause) := by
  obtain ⟨ha, hrest⟩ := not_or.1 hfits
  obtain ⟨hb, hlarge⟩ := not_or.1 hrest
  exact (classified_add ha hb).overflow_iff.2 (Nat.not_lt.1 hlarge)

/-! ## Differences -/

theorem value_le_of_difference (hvalue : q.value = a.value - b.value) : b.value ≤ a.value := by
  have hnonneg := q.value_nonneg
  rw [hvalue] at hnonneg
  exact sub_nonneg.1 hnonneg

theorem sub_of_fits (hvalue : q.value = a.value - b.value) (hfits : DifferenceFits a b) :
    sub a b = .ok q := by
  by_cases hb : b.coefficient = 0
  · rw [value_of_coefficient_eq_zero hb, sub_eq_add_neg, neg_zero, Rat.add_zero] at hvalue
    rw [eq_zero_of_coefficient hb, sub_zero, value_injective hvalue]
  · rcases (value_le_of_difference hvalue).lt_or_eq with hlt | heq
    · exact (sub_eq_ok_iff hb hlt).2 ⟨hvalue, hfits.resolve_left hb⟩
    · rw [heq, sub_self, value_eq_zero_iff] at hvalue
      rw [sub_of_value_eq heq.symm, eq_zero_of_coefficient hvalue]

/-- Equal operands fit, so the difference that does not is above zero. -/
theorem value_lt_of_not_fits (hvalue : q.value = a.value - b.value)
    (hfits : ¬ DifferenceFits a b) : b.value < a.value := by
  refine lt_of_le_of_ne (value_le_of_difference hvalue) fun heq => ?_
  have hab : b = a := value_injective heq
  subst hab
  have hcommon : b.exponent ≤ commonExponent b b :=
    Int.le_min.2 ⟨Int.le_refl b.exponent, Int.le_refl b.exponent⟩
  have hsize : b.scaledTo (commonExponent b b) < 2 ^ 64 := by
    rw [scaledTo_of_le hcommon]
    exact b.coefficient_lt
  exact hfits (Or.inr hsize)

theorem sub_of_not_fits (hvalue : q.value = a.value - b.value) (hfits : ¬ DifferenceFits a b) :
    ∃ cause, sub a b = .error (.overflow cause) := by
  have hlt := value_lt_of_not_fits hvalue hfits
  obtain ⟨hb, hlarge⟩ := not_or.1 hfits
  exact (classified_sub hb hlt).overflow_iff.2 (Nat.not_lt.1 hlarge)

/-! ## Products -/

/-- The exponent of a product that a quantity holds is not above the range. -/
theorem exponent_lt_of_product (ha : a.coefficient ≠ 0) (hb : b.coefficient ≠ 0)
    (hvalue : q.value = a.value * b.value) :
    a.exponent + b.exponent + Decimal.trailingZeros (a.coefficient * b.coefficient) <
      2 ^ 63 := by
  rw [← exact_product] at hvalue
  rw [← (normal_of_value (Nat.mul_ne_zero ha hb) hvalue).2]
  exact q.exponent_range.2

theorem mul_of_fits (hvalue : q.value = a.value * b.value)
    (hcoefficient : a.coefficient * b.coefficient < 2 ^ 64) (hexponent : ExponentsFit a b) :
    mul a b = .ok q := by
  by_cases hzero : a.coefficient = 0 ∨ b.coefficient = 0
  · rw [mul_of_coefficient_eq_zero hzero]
    have hproduct : a.value * b.value = 0 := by
      rcases hzero with ha | hb
      · rw [value_of_coefficient_eq_zero ha, Rat.zero_mul]
      · rw [value_of_coefficient_eq_zero hb, Rat.mul_zero]
    rw [hproduct, value_eq_zero_iff] at hvalue
    rw [eq_zero_of_coefficient hvalue]
  · obtain ⟨ha, hb⟩ := not_or.1 hzero
    have hhigh := exponent_lt_of_product ha hb hvalue
    have hrange : ExponentRange (a.exponent + b.exponent) := by
      unfold ExponentsFit at hexponent
      exact ⟨hexponent, by omega⟩
    obtain ⟨p, hok, hp⟩ := (productOutcome_mul ha hb).normal_iff.2 ⟨hcoefficient, hrange, hhigh⟩
    rw [hok, value_injective (hp.trans hvalue.symm)]

theorem mul_of_low_exponent (hcoefficient : a.coefficient * b.coefficient < 2 ^ 64)
    (hexponent : ¬ ExponentsFit a b) :
    ∃ n exponent, mul a b = .error (.exponentOverflow n exponent) := by
  unfold ExponentsFit at hexponent
  -- a factor that is zero has exponent zero, and the other exponent is in range
  have ha : a.coefficient ≠ 0 := by
    intro ha
    have hrange := b.exponent_range.1
    rw [exponent_eq_zero ha] at hexponent
    omega
  have hb : b.coefficient ≠ 0 := by
    intro hb
    have hrange := a.exponent_range.1
    rw [exponent_eq_zero hb] at hexponent
    omega
  have hout : ¬ ExponentRange (a.exponent + b.exponent) := fun hrange => hexponent hrange.1
  exact (productOutcome_mul ha hb).exponentOverflow_iff.2 ⟨hcoefficient, Or.inl hout⟩

/-! ## Results at the limits -/

/-- The sum of `widest` and `five`, which ends in a zero. -/
def pastWidest : Quantity :=
  ⟨1844674407370955162, 1, by decide, wideTens.exponent_range, by decide⟩

/-- The sum of `nearWidest` and `one`, which ends in a zero as well. -/
def tensOfWidest : Quantity :=
  ⟨1844674407370955161, 1, by decide, wideTens.exponent_range, by decide⟩

def twiceFarthest : Quantity :=
  ⟨2, 19, two.coefficient_lt, farthest.exponent_range, by decide⟩

def belowWidest : Quantity :=
  ⟨1553255926290448385, 0, by decide, one.exponent_range, by decide⟩

/-- A power of two that has a zero when it is multiplied by `five`. -/
def highestBit : Quantity :=
  ⟨2 ^ 63, 0, by decide, one.exponent_range, by decide⟩

def fiveHighestBits : Quantity :=
  ⟨2 ^ 62, 1, by decide, wideTens.exponent_range, by decide⟩

def bottomTwo : Quantity :=
  ⟨2, -2 ^ 63, two.coefficient_lt, bottomOne.exponent_range, by decide⟩

theorem value_pastWidest : pastWidest.value = widest.value + five.value := by
  norm_num [value, Decimal.exact, pastWidest, widest, five]

theorem value_tensOfWidest : tensOfWidest.value = nearWidest.value + one.value := by
  norm_num [value, Decimal.exact, tensOfWidest, nearWidest, one]

theorem value_belowWidest : belowWidest.value = twiceFarthest.value - widest.value := by
  norm_num [value, Decimal.exact, belowWidest, twiceFarthest, widest]

theorem value_fiveHighestBits : fiveHighestBits.value = highestBit.value * five.value := by
  norm_num [value, Decimal.exact, fiveHighestBits, highestBit, five]

theorem value_bottomOne : bottomOne.value = bottomTwo.value * half.value := by
  rw [← exact_product]
  exact (Decimal.exact_mul_pow 1 1 (-2 ^ 63 - 1)).symm

/--
An exact result that is the value of a quantity is returned whenever what comes up on
the way fits: the aligned sum, the aligned left operand of a difference, or the
coefficient and the exponent of a product before its zeros are stripped.

Where it does not fit, the operation reports just that.
-/
theorem representable_result (a b q : Quantity) :
    (q.value = a.value + b.value →
      (SumFits a b → add a b = .ok q) ∧
        (¬ SumFits a b → ∃ cause, add a b = .error (.overflow cause))) ∧
      (q.value = a.value - b.value →
        (DifferenceFits a b → sub a b = .ok q) ∧
          (¬ DifferenceFits a b → ∃ cause, sub a b = .error (.overflow cause))) ∧
      (q.value = a.value * b.value →
        (a.coefficient * b.coefficient < 2 ^ 64 → ExponentsFit a b → mul a b = .ok q) ∧
          (2 ^ 64 ≤ a.coefficient * b.coefficient →
            ∃ cause, mul a b = .error (.overflow cause)) ∧
          (a.coefficient * b.coefficient < 2 ^ 64 → ¬ ExponentsFit a b →
            ∃ n exponent, mul a b = .error (.exponentOverflow n exponent))) :=
  ⟨fun hvalue => ⟨add_of_fits hvalue, add_of_not_fits⟩,
    fun hvalue => ⟨sub_of_fits hvalue, sub_of_not_fits hvalue⟩,
    fun hvalue => ⟨mul_of_fits hvalue, fun hlarge => ⟨_, mul_of_large hlarge⟩,
      mul_of_low_exponent⟩⟩

/--
At the limits a sum that fits is returned.  A difference, a product and the exponent of a
product do not fit, though each is the value of a quantity.
-/
theorem representable_result_at_limits :
    add nearWidest one = .ok tensOfWidest ∧
      (belowWidest.value = twiceFarthest.value - widest.value ∧
        ∃ cause, sub twiceFarthest widest = .error (.overflow cause)) ∧
      (fiveHighestBits.value = highestBit.value * five.value ∧
        ∃ cause, mul highestBit five = .error (.overflow cause)) ∧
      bottomOne.value = bottomTwo.value * half.value ∧
        ∃ n exponent, mul bottomTwo half = .error (.exponentOverflow n exponent) := by
  obtain ⟨hsum, -⟩ := representable_result nearWidest one tensOfWidest
  obtain ⟨-, hdifference, -⟩ := representable_result twiceFarthest widest belowWidest
  obtain ⟨-, -, hcoefficient⟩ := representable_result highestBit five fiveHighestBits
  obtain ⟨-, -, hexponent⟩ := representable_result bottomTwo half bottomOne
  have hfits : SumFits nearWidest one := Or.inr (Or.inr (by decide))
  have hlarge : ¬ DifferenceFits twiceFarthest widest := by
    unfold DifferenceFits
    decide
  have hlow : ¬ ExponentsFit bottomTwo half := by
    unfold ExponentsFit
    decide
  exact ⟨(hsum value_tensOfWidest).1 hfits,
    ⟨value_belowWidest, (hdifference value_belowWidest).2 hlarge⟩,
    ⟨value_fiveHighestBits, (hcoefficient value_fiveHighestBits).2.1 (by decide)⟩,
    value_bottomOne, (hexponent value_bottomOne).2.2 (by decide) hlow⟩

/-- No operation returns every result that a quantity could hold. -/
theorem not_all_representable_results :
    (¬ ∀ a b q : Quantity, q.value = a.value + b.value → add a b = .ok q) ∧
      (¬ ∀ a b q : Quantity, q.value = a.value - b.value → sub a b = .ok q) ∧
      (¬ ∀ a b q : Quantity, q.value = a.value * b.value → mul a b = .ok q) := by
  refine ⟨fun h => ?_, fun h => ?_, fun h => ?_⟩
  · cases h widest five pastWidest value_pastWidest
  · cases h twiceFarthest widest belowWidest value_belowWidest
  · cases h highestBit five fiveHighestBits value_fiveHighestBits

end Quantity

end WeightedKripke
