import Mathlib.Algebra.Order.Ring.Unbundled.Basic
import WeightedKripke.Proofs.Quantity.Outcome

/-!
# Outcomes of products

The coefficients are multiplied before the exponents are added.  The exponent can
leave its range in two places: the sum of the exponents can, at either end, and the
zeros that factors of two and five make in the product of the coefficients can push
it over the upper end.
-/

namespace WeightedKripke

namespace Quantity

variable {a b c p q : Quantity}

theorem mul_of_coefficient_eq_zero (h : a.coefficient = 0 ∨ b.coefficient = 0) :
    mul a b = .ok zero := by
  unfold mul
  rw [if_pos h]

theorem mul_of_large (h : 2 ^ 64 ≤ a.coefficient * b.coefficient) :
    mul a b = .error (.overflow (.product a b)) := by
  have hzero : ¬ (a.coefficient = 0 ∨ b.coefficient = 0) := by
    intro hzero
    rw [Nat.mul_eq_zero.2 hzero] at h
    omega
  unfold mul
  rw [if_neg hzero, dif_neg (Nat.not_lt.2 h)]

/-- A sum of exponents out of range is reported with the exponent on the left. -/
theorem mul_of_exponent_out (ha : a.coefficient ≠ 0) (hb : b.coefficient ≠ 0)
    (hfits : a.coefficient * b.coefficient < 2 ^ 64)
    (hout : ¬ ExponentRange (a.exponent + b.exponent)) :
    mul a b = .error (.exponentOverflow (a.coefficient * b.coefficient) a.exponent) := by
  unfold mul
  rw [if_neg (not_or.2 ⟨ha, hb⟩), dif_pos hfits, dif_neg hout]

theorem classified_mul (ha : a.coefficient ≠ 0) (hb : b.coefficient ≠ 0)
    (hrange : ExponentRange (a.exponent + b.exponent)) :
    Classified (a.coefficient * b.coefficient) (a.coefficient * b.coefficient)
      (a.exponent + b.exponent) (mul a b) := by
  rcases lt_or_ge (a.coefficient * b.coefficient) (2 ^ 64) with hfits | hlarge
  · unfold mul
    rw [if_neg (not_or.2 ⟨ha, hb⟩), dif_pos hfits, dif_pos hrange]
    exact .of_ofParts hfits (Nat.mul_ne_zero ha hb) _ _
  · rw [mul_of_large hlarge]
    exact .of_overflow hlarge

/--
The outcome that is due for the product of two nonzero quantities.

The conditions exclude each other and leave nothing over.
-/
structure ProductOutcome (a b : Quantity) (outcome : Except QuantityError Quantity) :
    Prop where
  overflow_iff : (∃ cause, outcome = .error (.overflow cause)) ↔
    2 ^ 64 ≤ a.coefficient * b.coefficient
  exponentOverflow_iff : (∃ n exponent, outcome = .error (.exponentOverflow n exponent)) ↔
    a.coefficient * b.coefficient < 2 ^ 64 ∧
      (¬ ExponentRange (a.exponent + b.exponent) ∨
        2 ^ 63 ≤ a.exponent + b.exponent +
          Decimal.trailingZeros (a.coefficient * b.coefficient))
  normal_iff : (∃ q, outcome = .ok q ∧ q.value = a.value * b.value) ↔
    a.coefficient * b.coefficient < 2 ^ 64 ∧ ExponentRange (a.exponent + b.exponent) ∧
      a.exponent + b.exponent +
        Decimal.trailingZeros (a.coefficient * b.coefficient) < 2 ^ 63

namespace ProductOutcome

variable {outcome other : Except QuantityError Quantity}

theorem exhaustive (h : ProductOutcome a b outcome) :
    (∃ cause, outcome = .error (.overflow cause)) ∨
      (∃ n exponent, outcome = .error (.exponentOverflow n exponent)) ∨
        ∃ q, outcome = .ok q ∧ q.value = a.value * b.value := by
  rcases lt_or_ge (a.coefficient * b.coefficient) (2 ^ 64) with hfits | hlarge
  · by_cases hrange : ExponentRange (a.exponent + b.exponent) ∧
        a.exponent + b.exponent +
          Decimal.trailingZeros (a.coefficient * b.coefficient) < 2 ^ 63
    · exact Or.inr (Or.inr (h.normal_iff.2 ⟨hfits, hrange⟩))
    · have hout := (not_and_or.1 hrange).imp_right Int.not_lt.1
      exact Or.inr (Or.inl (h.exponentOverflow_iff.2 ⟨hfits, hout⟩))
  · exact Or.inl (h.overflow_iff.2 hlarge)

theorem value_of_ok (h : ProductOutcome a b outcome) (hok : outcome = .ok q) :
    q.value = a.value * b.value := by
  rcases h.exhaustive with ⟨cause, heq⟩ | ⟨n, exponent, heq⟩ | ⟨p, heq, hp⟩ <;>
    rw [hok] at heq <;> cases heq
  exact hp

theorem swap (h : ProductOutcome a b outcome) : ProductOutcome b a outcome where
  overflow_iff := by
    rw [h.overflow_iff, Nat.mul_comm]
  exponentOverflow_iff := by
    rw [h.exponentOverflow_iff, Nat.mul_comm, Int.add_comm]
  normal_iff := by
    rw [mul_comm b.value, h.normal_iff, Nat.mul_comm, Int.add_comm]

theorem variant_eq (h : ProductOutcome a b outcome) (h' : ProductOutcome a b other) :
    variant outcome = variant other := by
  rcases h.exhaustive with ⟨cause, rfl⟩ | ⟨n, exponent, rfl⟩ | ⟨p, rfl, hp⟩
  · obtain ⟨cause', rfl⟩ := h'.overflow_iff.2 (h.overflow_iff.1 ⟨cause, rfl⟩)
    rfl
  · obtain ⟨n', exponent', rfl⟩ :=
      h'.exponentOverflow_iff.2 (h.exponentOverflow_iff.1 ⟨n, exponent, rfl⟩)
    rfl
  · obtain ⟨q, rfl, hq⟩ := h'.normal_iff.2 (h.normal_iff.1 ⟨p, rfl, hp⟩)
    rw [value_injective (hp.trans hq.symm)]

end ProductOutcome

theorem exact_product (a b : Quantity) :
    Decimal.exact (a.coefficient * b.coefficient) (a.exponent + b.exponent) =
      a.value * b.value :=
  Decimal.exact_mul a.coefficient b.coefficient a.exponent b.exponent

theorem productOutcome_mul (ha : a.coefficient ≠ 0) (hb : b.coefficient ≠ 0) :
    ProductOutcome a b (mul a b) := by
  rcases lt_or_ge (a.coefficient * b.coefficient) (2 ^ 64) with hfits | hlarge
  · by_cases hrange : ExponentRange (a.exponent + b.exponent)
    · have hdue := classified_mul ha hb hrange
      exact {
        overflow_iff := hdue.overflow_iff
        exponentOverflow_iff := by
          constructor
          · intro h
            obtain ⟨n, exponent, h⟩ := h
            obtain ⟨-, -, hhigh⟩ := (hdue.exponentOverflow_iff n exponent).1 h
            exact ⟨hfits, Or.inr hhigh⟩
          · intro h
            have hhigh := h.2.resolve_left (not_not.2 hrange)
            exact ⟨_, _, (hdue.exponentOverflow_iff _ _).2 ⟨⟨rfl, rfl⟩, hfits, hhigh⟩⟩
        normal_iff := by
          rw [← exact_product, hdue.normal_iff]
          exact and_congr_right fun _ => (and_iff_right hrange).symm }
    · rw [mul_of_exponent_out ha hb hfits hrange]
      exact {
        overflow_iff := iff_of_false (by simp) (Nat.not_le.2 hfits)
        exponentOverflow_iff := iff_of_true ⟨_, _, rfl⟩ ⟨hfits, Or.inl hrange⟩
        normal_iff := iff_of_false (by simp) fun h => hrange h.2.1 }
  · rw [mul_of_large hlarge]
    exact {
      overflow_iff := iff_of_true ⟨_, rfl⟩ hlarge
      exponentOverflow_iff := iff_of_false (by simp) fun h => Nat.not_lt.2 hlarge h.1
      normal_iff := iff_of_false (by simp) fun h => Nat.not_lt.2 hlarge h.1 }

theorem value_of_mul (h : mul a b = .ok q) : q.value = a.value * b.value := by
  by_cases hzero : a.coefficient = 0 ∨ b.coefficient = 0
  · rw [mul_of_coefficient_eq_zero hzero] at h
    cases h
    rcases hzero with ha | hb
    · rw [value_of_coefficient_eq_zero ha, Rat.zero_mul, value_zero]
    · rw [value_of_coefficient_eq_zero hb, Rat.mul_zero, value_zero]
  · obtain ⟨ha, hb⟩ := not_or.1 hzero
    exact (productOutcome_mul ha hb).value_of_ok h

theorem variant_mul_comm (a b : Quantity) : variant (mul b a) = variant (mul a b) := by
  by_cases hzero : a.coefficient = 0 ∨ b.coefficient = 0
  · rw [mul_of_coefficient_eq_zero hzero, mul_of_coefficient_eq_zero hzero.symm]
  · obtain ⟨ha, hb⟩ := not_or.1 hzero
    exact (productOutcome_mul hb ha).swap.variant_eq (productOutcome_mul ha hb)

theorem compare_of_mul (ha : a.coefficient ≠ 0) (hp : mul a b = .ok p)
    (hq : mul a c = .ok q) : compare p q = compare b c := by
  rw [compare_eq_compare_value, compare_eq_compare_value b c, value_of_mul hp,
    value_of_mul hq, ← cmp_eq_compare, ← cmp_eq_compare, cmp_mul_pos_left (value_pos ha)]

/--
A product with zero is zero; any other product has the outcome that is due for its
factors.

The factors can change places, and products with one nonzero factor compare as the
other factors do.
-/
theorem mul_outcome (a b : Quantity) :
    (a.coefficient = 0 ∨ b.coefficient = 0 → mul a b = .ok zero) ∧
      (a.coefficient ≠ 0 → b.coefficient ≠ 0 → ProductOutcome a b (mul a b)) ∧
      variant (mul b a) = variant (mul a b) ∧
      (∀ c p q, a.coefficient ≠ 0 → mul a b = .ok p → mul a c = .ok q →
        compare p q = compare b c) :=
  ⟨mul_of_coefficient_eq_zero, productOutcome_mul, variant_mul_comm a b,
    fun _ _ _ => compare_of_mul⟩

/--
At the limits a product leaves the range of coefficients, or that of exponents by the
sum of the exponents or by one zero.
-/
theorem mul_outcome_at_limits :
    (∃ cause, mul widest two = .error (.overflow cause)) ∧
      (∃ n exponent, mul topOne topOne = .error (.exponentOverflow n exponent)) ∧
      (∃ n exponent, mul topFive two = .error (.exponentOverflow n exponent)) ∧
      mul topFive zero = .ok zero ∧
      ∃ p q, mul topOne two = .ok p ∧ mul topOne widest = .ok q ∧
        compare p q = .lt := by
  obtain ⟨-, hlarge, -⟩ := mul_outcome widest two
  obtain ⟨-, hsum, -⟩ := mul_outcome topOne topOne
  obtain ⟨-, hzeros, -⟩ := mul_outcome topFive two
  obtain ⟨hzero, -⟩ := mul_outcome topFive zero
  obtain ⟨-, -, -, horder⟩ := mul_outcome topOne two
  obtain ⟨p, hp⟩ : ∃ p, mul topOne two = .ok p := ⟨_, rfl⟩
  obtain ⟨q, hq⟩ : ∃ q, mul topOne widest = .ok q := ⟨_, rfl⟩
  have hlt : compare two widest = .lt := by decide
  exact ⟨(hlarge (by decide) (by decide)).overflow_iff.2 (by decide),
    (hsum (by decide) (by decide)).exponentOverflow_iff.2 ⟨by decide, Or.inl (by decide)⟩,
    (hzeros (by decide) (by decide)).exponentOverflow_iff.2 ⟨by decide, Or.inr (by decide)⟩,
    hzero (Or.inr rfl), p, q, hp, hq,
    (horder widest p q (by decide) hp hq).trans hlt⟩

end Quantity

end WeightedKripke
