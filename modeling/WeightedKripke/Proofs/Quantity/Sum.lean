import WeightedKripke.Proofs.Quantity.Outcome

/-!
# Outcomes of sums

The sum of two nonzero quantities is the sum of their coefficients at the common
exponent.  It overflows exactly when that number does not fit, in whichever step this
shows.  Normalising can take the exponent out of range only where no coefficient was
shifted, since the last digit of a sum with one shifted coefficient is not zero.
-/

namespace WeightedKripke

namespace Quantity

variable {a b : Quantity}

def alignedSum (a b : Quantity) : Nat :=
  a.scaledTo (commonExponent a b) + b.scaledTo (commonExponent a b)

theorem alignedSum_comm (a b : Quantity) : alignedSum a b = alignedSum b a := by
  rw [alignedSum, alignedSum, commonExponent_comm, Nat.add_comm]

theorem exact_alignedSum (a b : Quantity) :
    Decimal.exact (alignedSum a b) (commonExponent a b) = a.value + b.value := by
  rw [alignedSum, Decimal.exact_add, exact_scaledTo (commonExponent_le_left a b),
    exact_scaledTo (commonExponent_le_right a b)]

theorem alignedSum_ne_zero (ha : a.coefficient ≠ 0) : alignedSum a b ≠ 0 := by
  have hleft : a.scaledTo (commonExponent a b) ≠ 0 := scaledTo_ne_zero ha
  unfold alignedSum
  omega

theorem alignedSum_mod_ten (hb : b.coefficient ≠ 0) (h : b.exponent < a.exponent) :
    alignedSum a b % 10 ≠ 0 := by
  have hcommon : commonExponent a b = b.exponent := Int.min_eq_right h.le
  have hshifted := scaledTo_mod_ten h
  have hlast := coefficient_mod_ne_zero hb
  rw [alignedSum, hcommon, scaledTo_of_le (Int.le_refl b.exponent)]
  omega

/-- Only sums of coefficients that were not shifted can end in a zero. -/
theorem trailingZeros_alignedSum (ha : a.coefficient ≠ 0) (hb : b.coefficient ≠ 0)
    (h : a.exponent ≠ b.exponent) : Decimal.trailingZeros (alignedSum a b) = 0 := by
  apply Decimal.trailingZeros_eq_zero
  rcases Int.lt_or_gt_of_ne h with hlt | hgt
  · rw [alignedSum_comm]
    exact alignedSum_mod_ten ha hlt
  · exact alignedSum_mod_ten hb hgt

theorem classified_add (ha : a.coefficient ≠ 0) (hb : b.coefficient ≠ 0) :
    Classified (alignedSum a b) (alignedSum a b) (commonExponent a b) (add a b) := by
  unfold add
  rw [if_neg hb, if_neg ha]
  apply classified_aligned ha hb (Nat.le_add_right _ _) (Nat.le_add_left _ _)
  intro left right hleft hright
  have hsum : left.val + right.val = alignedSum a b := by
    rw [hleft, hright, alignedSum]
  simp only [hsum]
  split
  · rename_i hfits
    exact .of_ofParts hfits (alignedSum_ne_zero ha) _ _
  · rename_i hlarge
    exact .of_overflow (Nat.not_lt.1 hlarge)

/-- Zero apart, exponents that differ keep the exponent of the sum in range. -/
theorem exponent_eq_of_add {n : Nat} {exponent : Int}
    (h : add a b = .error (.exponentOverflow n exponent)) : a.exponent = b.exponent := by
  by_cases hb : b.coefficient = 0
  · rw [eq_zero_of_coefficient hb, add_zero] at h
    cases h
  · by_cases ha : a.coefficient = 0
    · rw [eq_zero_of_coefficient ha, zero_add] at h
      cases h
    · have hhigh := ((classified_add ha hb).exponentOverflow_iff n exponent).1 h
      have hrange := (ExponentRange.min a.exponent_range b.exponent_range).2
      by_contra hne
      rw [trailingZeros_alignedSum ha hb hne, commonExponent] at hhigh
      omega

theorem variant_add_comm (a b : Quantity) : variant (add b a) = variant (add a b) := by
  by_cases hb : b.coefficient = 0
  · rw [eq_zero_of_coefficient hb, add_zero, zero_add]
  · by_cases ha : a.coefficient = 0
    · rw [eq_zero_of_coefficient ha, add_zero, zero_add]
    · have hsum := classified_add hb ha
      rw [alignedSum_comm, commonExponent_comm] at hsum
      exact hsum.variant_eq (classified_add ha hb)

/--
A sum with zero is the other operand; any other sum has the outcome that is due for
the aligned sum, which stands for the exact one.

The exponent leaves its range for equal exponents only, and the operands can change
places.
-/
theorem add_outcome (a b : Quantity) :
    (a.coefficient = 0 → add a b = .ok b) ∧ (b.coefficient = 0 → add a b = .ok a) ∧
      (a.coefficient ≠ 0 → b.coefficient ≠ 0 →
        Classified (alignedSum a b) (alignedSum a b) (commonExponent a b) (add a b)) ∧
      Decimal.exact (alignedSum a b) (commonExponent a b) = a.value + b.value ∧
      (∀ n exponent, add a b = .error (.exponentOverflow n exponent) →
        a.exponent = b.exponent) ∧
      variant (add b a) = variant (add a b) := by
  refine ⟨?_, ?_, classified_add, exact_alignedSum a b, fun _ _ => exponent_eq_of_add,
    variant_add_comm a b⟩
  · intro ha
    rw [eq_zero_of_coefficient ha, zero_add]
  · intro hb
    rw [eq_zero_of_coefficient hb, add_zero]

/-- At the limits a sum leaves the range of exponents, or that of coefficients. -/
theorem add_outcome_at_limits :
    add topFive topFive = .error (.exponentOverflow 10 (2 ^ 63 - 1)) ∧
      (∃ cause, add tooFar widest = .error (.overflow cause)) ∧
      add zero topFive = .ok topFive := by
  obtain ⟨-, -, htop, -⟩ := add_outcome topFive topFive
  obtain ⟨-, -, hfar, -⟩ := add_outcome tooFar widest
  obtain ⟨hzero, -⟩ := add_outcome zero topFive
  refine ⟨?_, ?_, hzero rfl⟩
  · have hdue := (htop (by decide) (by decide)).exponentOverflow_iff 10 (2 ^ 63 - 1)
    exact hdue.2 ⟨by decide, by decide, by decide⟩
  · exact (hfar (by decide) (by decide)).overflow_iff.2 (by decide)

end Quantity

end WeightedKripke
