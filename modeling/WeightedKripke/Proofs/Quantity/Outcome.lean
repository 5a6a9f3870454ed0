import WeightedKripke.Proofs.Quantity.Alignment

/-!
# Outcomes of sums and differences

A sum or a difference is a number `n × 10 ^ exponent`, computed from coefficients up
to some size.  `Classified` says when each of three outcomes is due: a coefficient
does not fit, the normal form has an exponent out of range, or the normal form is
returned.  The conditions exclude each other and leave nothing over, so an operation
that is classified fails for no other reason.
-/

namespace WeightedKripke

namespace QuantityError

inductive Kind where
  | negative
  | nonFinite
  | overflow
  | underflow
  | exponentOverflow
deriving DecidableEq

def kind : QuantityError → Kind
  | negative _ => .negative
  | nonFinite _ => .nonFinite
  | overflow _ => .overflow
  | underflow _ _ => .underflow
  | exponentOverflow _ _ => .exponentOverflow

end QuantityError

namespace Quantity

/-- An outcome of which a failure shows its kind only. -/
def variant (outcome : Except QuantityError Quantity) : Except QuantityError.Kind Quantity :=
  outcome.mapError QuantityError.kind

theorem variant_eq_ok_iff {outcome : Except QuantityError Quantity} {q : Quantity} :
    variant outcome = .ok q ↔ outcome = .ok q := by
  cases outcome with
  | error e => exact iff_of_false (fun h => nomatch h) fun h => nomatch h
  | ok p => exact ⟨fun h => congrArg Except.ok (Except.ok.inj h), congrArg variant⟩

/--
The outcome that is due for `n × 10 ^ exponent`, a nonzero number that is computed
from coefficients up to `size`.
-/
structure Classified (size n : Nat) (exponent : Int)
    (outcome : Except QuantityError Quantity) : Prop where
  overflow_iff : (∃ cause, outcome = .error (.overflow cause)) ↔ 2 ^ 64 ≤ size
  /-- The error names the number that was to be normalised. -/
  exponentOverflow_iff : ∀ c e, outcome = .error (.exponentOverflow c e) ↔
    (c = n ∧ e = exponent) ∧ size < 2 ^ 64 ∧ 2 ^ 63 ≤ exponent + Decimal.trailingZeros n
  normal_iff : (∃ q, outcome = .ok q ∧ q.value = Decimal.exact n exponent) ↔
    size < 2 ^ 64 ∧ exponent + Decimal.trailingZeros n < 2 ^ 63

namespace Classified

variable {size n : Nat} {exponent : Int} {outcome other : Except QuantityError Quantity}

theorem of_overflow {cause : CoefficientOverflow} (large : 2 ^ 64 ≤ size) :
    Classified size n exponent (.error (.overflow cause)) where
  overflow_iff := ⟨fun _ => large, fun _ => ⟨cause, rfl⟩⟩
  exponentOverflow_iff _ _ := iff_of_false (by simp) fun h => Nat.not_lt.2 large h.2.1
  normal_iff := iff_of_false (by simp) fun h => Nat.not_lt.2 large h.1

/-- Normalising a coefficient that fits has one of the other two outcomes. -/
theorem of_ofParts (fits : size < 2 ^ 64) (nonzero : n ≠ 0) (coefficient_lt : n < 2 ^ 64)
    (exponent_range : ExponentRange exponent) :
    Classified size n exponent (ofParts n exponent coefficient_lt exponent_range) := by
  have hsize : ¬ 2 ^ 64 ≤ size := Nat.not_le.2 fits
  unfold ofParts
  rw [dif_neg nonzero]
  by_cases hrange : exponent + Decimal.trailingZeros n < 2 ^ 63
  · rw [dif_pos hrange]
    have hvalue := value_normalForm nonzero coefficient_lt exponent_range hrange
    exact {
      overflow_iff := iff_of_false (by simp) hsize
      exponentOverflow_iff := fun _ _ =>
        iff_of_false (by simp) fun h => Int.not_le.2 hrange h.2.2
      normal_iff := ⟨fun _ => ⟨fits, hrange⟩, fun _ => ⟨_, rfl, hvalue⟩⟩ }
  · rw [dif_neg hrange]
    exact {
      overflow_iff := iff_of_false (by simp) hsize
      exponentOverflow_iff := by
        intro c e
        constructor
        · rintro ⟨⟩
          exact ⟨⟨rfl, rfl⟩, fits, Int.not_lt.1 hrange⟩
        · rintro ⟨⟨rfl, rfl⟩, -⟩
          rfl
      normal_iff := iff_of_false (by simp) fun h => hrange h.2 }

theorem exhaustive (h : Classified size n exponent outcome) :
    (∃ cause, outcome = .error (.overflow cause)) ∨
      outcome = .error (.exponentOverflow n exponent) ∨
        ∃ q, outcome = .ok q ∧ q.value = Decimal.exact n exponent := by
  rcases lt_or_ge size (2 ^ 64) with hfits | hlarge
  · rcases lt_or_ge (exponent + Decimal.trailingZeros n) (2 ^ 63) with hrange | hhigh
    · exact Or.inr (Or.inr (h.normal_iff.2 ⟨hfits, hrange⟩))
    · exact Or.inr (Or.inl ((h.exponentOverflow_iff n exponent).2 ⟨⟨rfl, rfl⟩, hfits, hhigh⟩))
  · exact Or.inl (h.overflow_iff.2 hlarge)

theorem value_of_ok {q : Quantity} (h : Classified size n exponent outcome)
    (hok : outcome = .ok q) : q.value = Decimal.exact n exponent := by
  rcases h.exhaustive with ⟨cause, heq⟩ | heq | ⟨p, heq, hp⟩ <;> rw [hok] at heq <;> cases heq
  exact hp

theorem size_lt_of_ok {q : Quantity} (h : Classified size n exponent outcome)
    (hok : outcome = .ok q) : size < 2 ^ 64 :=
  (h.normal_iff.1 ⟨q, hok, h.value_of_ok hok⟩).1

/-- The exponent of a value that a quantity has is in range. -/
theorem eq_ok {q : Quantity} (h : Classified size n exponent outcome) (fits : size < 2 ^ 64)
    (nonzero : n ≠ 0) (hvalue : q.value = Decimal.exact n exponent) : outcome = .ok q := by
  have hrange : exponent + Decimal.trailingZeros n < 2 ^ 63 := by
    rw [← (normal_of_value nonzero hvalue).2]
    exact q.exponent_range.2
  obtain ⟨p, hok, hp⟩ := h.normal_iff.2 ⟨fits, hrange⟩
  rw [hok, value_injective (hp.trans hvalue.symm)]

theorem variant_ne_underflow (h : Classified size n exponent outcome) :
    variant outcome ≠ .error .underflow := by
  rcases h.exhaustive with ⟨cause, rfl⟩ | rfl | ⟨q, rfl, -⟩ <;> intro heq <;> cases heq

/-- Outcomes that are due for one number agree up to the operands that an error names. -/
theorem variant_eq (h : Classified size n exponent outcome)
    (h' : Classified size n exponent other) : variant outcome = variant other := by
  rcases h.exhaustive with ⟨cause, rfl⟩ | hcase | ⟨p, rfl, hp⟩
  · obtain ⟨cause', rfl⟩ := h'.overflow_iff.2 (h.overflow_iff.1 ⟨cause, rfl⟩)
    rfl
  · have hdue := (h.exponentOverflow_iff n exponent).1 hcase
    rw [hcase, (h'.exponentOverflow_iff n exponent).2 hdue]
  · obtain ⟨q, rfl, hq⟩ := h'.normal_iff.2 (h.normal_iff.1 ⟨p, rfl, hp⟩)
    rw [value_injective (hp.trans hq.symm)]

end Classified

variable {a b : Quantity}

/--
Two quantities are aligned and then combined; a coefficient that is too large to be
aligned exceeds the size as well.
-/
theorem classified_aligned {size n : Nat} {exponent : Int}
    {combine : { n : Nat // n < 2 ^ 64 } → { n : Nat // n < 2 ^ 64 } →
      Except QuantityError Quantity}
    (ha : a.coefficient ≠ 0) (hb : b.coefficient ≠ 0)
    (hleft : a.scaledTo exponent ≤ size) (hright : b.scaledTo exponent ≤ size)
    (hcombine : ∀ left right, left.val = a.scaledTo exponent →
      right.val = b.scaledTo exponent → Classified size n exponent (combine left right)) :
    Classified size n exponent (do
      let left ← a.coefficientAt exponent
      let right ← b.coefficientAt exponent
      combine left right) := by
  rcases lt_or_ge (a.scaledTo exponent) (2 ^ 64) with hfits | hlarge
  · rw [coefficientAt_of_fits ha hfits]
    rcases lt_or_ge (b.scaledTo exponent) (2 ^ 64) with hfits' | hlarge
    · rw [coefficientAt_of_fits hb hfits']
      exact hcombine ⟨_, hfits⟩ ⟨_, hfits'⟩ rfl rfl
    · rw [coefficientAt_of_large hlarge]
      exact .of_overflow (hlarge.trans hright)
  · rw [coefficientAt_of_large hlarge]
    exact .of_overflow (hlarge.trans hleft)

end Quantity

end WeightedKripke
