import WeightedKripke.Proofs.Quantity.Outcome

/-!
# Outcomes of differences

Operands are compared before they are aligned, so a difference below zero is reported
as such at any distance of the exponents, and equal operands need no alignment at all.
The order of the quantities is that of their coefficients at the common exponent: only
a smaller coefficient is ever subtracted from a larger one, and only the larger one can
be too large to be aligned.
-/

namespace WeightedKripke

namespace Quantity

variable {a b : Quantity}

/-- The difference of the coefficients at the common exponent, for `b` not above `a`. -/
def alignedDifference (a b : Quantity) : Nat :=
  a.scaledTo (commonExponent a b) - b.scaledTo (commonExponent a b)

theorem scaledTo_lt_scaledTo_iff :
    b.scaledTo (commonExponent a b) < a.scaledTo (commonExponent a b) ↔ b.value < a.value := by
  rw [← exact_scaledTo (commonExponent_le_left a b),
    ← exact_scaledTo (commonExponent_le_right a b), Decimal.exact_lt_exact_iff]

theorem exact_alignedDifference (h : b.value < a.value) :
    Decimal.exact (alignedDifference a b) (commonExponent a b) = a.value - b.value := by
  have hle := (scaledTo_lt_scaledTo_iff.2 h).le
  have hsum := Decimal.exact_add (alignedDifference a b) (b.scaledTo (commonExponent a b))
    (commonExponent a b)
  rw [alignedDifference, Nat.sub_add_cancel hle,
    exact_scaledTo (commonExponent_le_left a b),
    exact_scaledTo (commonExponent_le_right a b)] at hsum
  rw [hsum, alignedDifference, add_sub_cancel_right]

theorem alignedDifference_ne_zero (h : b.value < a.value) : alignedDifference a b ≠ 0 := by
  have hlt := scaledTo_lt_scaledTo_iff.2 h
  unfold alignedDifference
  omega

theorem compare_eq_gt_iff : compare a b = .gt ↔ b.value < a.value := by
  rw [compare_eq_compare_value, compare_gt_iff_gt]

/-! ## The three orders of the operands -/

theorem sub_of_value_lt (h : a.value < b.value) : sub a b = .error (.underflow a b) := by
  have horder : compare a b = .lt := by
    rw [compare_eq_compare_value, compare_lt_iff_lt]
    exact h
  unfold sub
  rw [if_neg (coefficient_ne_zero_of_lt h), horder]

theorem sub_of_value_eq (h : a.value = b.value) : sub a b = .ok zero := by
  have hab : a = b := value_injective h
  subst hab
  by_cases ha : a.coefficient = 0
  · rw [eq_zero_of_coefficient ha, sub_zero]
  · have horder : compare a a = .eq := by
      rw [compare_eq_compare_value, compare_eq_iff_eq]
    unfold sub
    rw [if_neg ha, horder]

/-- The coefficients that are subtracted are those at the common exponent. -/
theorem sub_of_compare_gt (hb : b.coefficient ≠ 0) (h : compare a b = .gt) :
    sub a b = (do
      let left ← a.coefficientAt (commonExponent a b)
      let right ← b.coefficientAt (commonExponent a b)
      ofParts (left.val - right.val) (commonExponent a b)
        (Nat.lt_of_le_of_lt (Nat.sub_le left.val right.val) left.property)
        (ExponentRange.min a.exponent_range b.exponent_range)) := by
  unfold sub
  rw [if_neg hb, h]
  rfl

theorem classified_sub (hb : b.coefficient ≠ 0) (h : b.value < a.value) :
    Classified (a.scaledTo (commonExponent a b)) (alignedDifference a b)
      (commonExponent a b) (sub a b) := by
  have hlt := scaledTo_lt_scaledTo_iff.2 h
  have ha := coefficient_ne_zero_of_lt h
  rw [sub_of_compare_gt hb (compare_eq_gt_iff.2 h)]
  apply classified_aligned ha hb (Nat.le_refl _) hlt.le
  intro left right hleft hright
  have hfits : a.scaledTo (commonExponent a b) < 2 ^ 64 := hleft ▸ left.property
  have hdifference : left.val - right.val = alignedDifference a b := by
    rw [hleft, hright, alignedDifference]
  simp only [hdifference]
  exact .of_ofParts hfits (alignedDifference_ne_zero h) _ _

theorem variant_sub_eq_underflow_iff :
    variant (sub a b) = .error .underflow ↔ a.value < b.value := by
  constructor
  · intro h
    rcases lt_trichotomy a.value b.value with hlt | heq | hgt
    · exact hlt
    · rw [sub_of_value_eq heq] at h
      cases h
    · by_cases hb : b.coefficient = 0
      · rw [eq_zero_of_coefficient hb, sub_zero] at h
        cases h
      · exact absurd h (classified_sub hb hgt).variant_ne_underflow
  · intro h
    rw [sub_of_value_lt h]
    rfl

theorem sub_eq_underflow_iff : sub a b = .error (.underflow a b) ↔ a.value < b.value := by
  constructor
  · intro h
    rw [← variant_sub_eq_underflow_iff, h]
    rfl
  · exact sub_of_value_lt

/-! ## Alignment in front of the subtraction -/

/-- No coefficient is subtracted from one that is not larger. -/
theorem aligned_lt (h : compare a b = .gt) {left right : { n : Nat // n < 2 ^ 64 }}
    (hleft : a.coefficientAt (commonExponent a b) = .ok left)
    (hright : b.coefficientAt (commonExponent a b) = .ok right) : right.val < left.val := by
  rw [val_of_coefficientAt hleft, val_of_coefficientAt hright, scaledTo_lt_scaledTo_iff]
  exact compare_eq_gt_iff.1 h

/-- Where the larger operand is not shifted, the smaller one fits when it is. -/
theorem exists_aligned (hb : b.coefficient ≠ 0) (h : compare a b = .gt)
    (hexponent : a.exponent ≤ b.exponent) :
    ∃ left right, a.coefficientAt (commonExponent a b) = .ok left ∧
      b.coefficientAt (commonExponent a b) = .ok right := by
  have hlt := scaledTo_lt_scaledTo_iff.2 (compare_eq_gt_iff.1 h)
  have hcommon : a.exponent ≤ commonExponent a b := Int.le_min.2 ⟨Int.le_refl _, hexponent⟩
  have hleft : a.scaledTo (commonExponent a b) < 2 ^ 64 := by
    rw [scaledTo_of_le hcommon]
    exact a.coefficient_lt
  have ha : a.coefficient ≠ 0 := by
    rw [scaledTo_of_le hcommon] at hlt
    omega
  exact ⟨_, _, coefficientAt_of_fits ha hleft, coefficientAt_of_fits hb (hlt.trans hleft)⟩

/--
A difference reports underflow exactly when it is below zero, with its operands; it is
zero for equal operands and the left one if the right one is zero.  Else it has the
outcome that is due for the aligned difference, which stands for the exact one.

Where a coefficient is subtracted it is the smaller one at the common exponent, and
aligning the operands cannot fail unless the larger one has the larger exponent.
-/
theorem sub_outcome (a b : Quantity) :
    (sub a b = .error (.underflow a b) ↔ a.value < b.value) ∧
      (variant (sub a b) = .error .underflow ↔ a.value < b.value) ∧
      (a.value = b.value → sub a b = .ok zero) ∧
      (b.coefficient = 0 → sub a b = .ok a) ∧
      (b.coefficient ≠ 0 → b.value < a.value →
        Classified (a.scaledTo (commonExponent a b)) (alignedDifference a b)
            (commonExponent a b) (sub a b) ∧
          Decimal.exact (alignedDifference a b) (commonExponent a b) = a.value - b.value) ∧
      (compare a b = .gt → ∀ left right,
        a.coefficientAt (commonExponent a b) = .ok left →
          b.coefficientAt (commonExponent a b) = .ok right → right.val < left.val) ∧
      (b.coefficient ≠ 0 → compare a b = .gt → sub a b = (do
        let left ← a.coefficientAt (commonExponent a b)
        let right ← b.coefficientAt (commonExponent a b)
        ofParts (left.val - right.val) (commonExponent a b)
          (Nat.lt_of_le_of_lt (Nat.sub_le left.val right.val) left.property)
          (ExponentRange.min a.exponent_range b.exponent_range))) ∧
      (b.coefficient ≠ 0 → compare a b = .gt → a.exponent ≤ b.exponent →
        ∃ left right, a.coefficientAt (commonExponent a b) = .ok left ∧
          b.coefficientAt (commonExponent a b) = .ok right) := by
  refine ⟨sub_eq_underflow_iff, variant_sub_eq_underflow_iff, sub_of_value_eq, ?_, ?_,
    fun h _ _ => aligned_lt h, sub_of_compare_gt, exists_aligned⟩
  · intro hb
    rw [eq_zero_of_coefficient hb, sub_zero]
  · intro hb h
    exact ⟨classified_sub hb h, exact_alignedDifference h⟩

/--
At the limits a difference is below zero though the operands cannot be aligned, leaves
the range of exponents, or that of coefficients; a shift by 19 digits still fits.
-/
theorem sub_outcome_at_limits :
    sub widest topOne = .error (.underflow widest topOne) ∧
      sub topEleven topOne = .error (.exponentOverflow 10 (2 ^ 63 - 1)) ∧
      (∃ cause, sub tooFar widest = .error (.overflow cause)) ∧
      sub topOne topOne = .ok zero ∧ sub topOne zero = .ok topOne ∧
      ∃ left right, widest.coefficientAt 0 = .ok left ∧
        farthest.coefficientAt 0 = .ok right ∧ right.val < left.val := by
  have hbelow : widest.value < topOne.value := compare_eq_gt_iff.1 (by decide)
  have hfar : widest.value < tooFar.value := compare_eq_gt_iff.1 (by decide)
  have htop : topOne.value < topEleven.value := compare_eq_gt_iff.1 (by decide)
  obtain ⟨hunderflow, -⟩ := sub_outcome widest topOne
  obtain ⟨-, -, -, -, hexponent, -⟩ := sub_outcome topEleven topOne
  obtain ⟨-, -, -, -, hcoefficient, -⟩ := sub_outcome tooFar widest
  obtain ⟨-, -, hequal, -⟩ := sub_outcome topOne topOne
  obtain ⟨-, -, -, hzero, -⟩ := sub_outcome topOne zero
  obtain ⟨-, -, -, -, -, hlt, -, haligned⟩ := sub_outcome widest farthest
  obtain ⟨left, right, hleft, hright⟩ := haligned (by decide) (by decide) (by decide)
  have hdue := (hexponent (by decide) htop).1.exponentOverflow_iff 10 (2 ^ 63 - 1)
  exact ⟨hunderflow.2 hbelow, hdue.2 ⟨by decide, by decide, by decide⟩,
    (hcoefficient (by decide) hfar).1.overflow_iff.2 (by decide), hequal rfl, hzero rfl,
    left, right, hleft, hright, hlt (by decide) left right hleft hright⟩

end Quantity

end WeightedKripke
