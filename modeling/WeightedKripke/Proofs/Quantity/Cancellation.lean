import WeightedKripke.Proofs.Quantity.Arithmetic

/-!
# Addition and subtraction undo each other

A sum or a difference that succeeds leaves room for the operation that takes it back.
Its result may be normalised to an exponent above those of the operands, never to one
below their common exponent, so what is aligned to take it back is not larger than
what was aligned before.
-/

namespace WeightedKripke

/-- Each of two operations takes back what the other one did, whichever operand is given. -/
structure Undoes {ε α : Type} (add sub : α → α → Except ε α) : Prop where
  sub_of_add : ∀ {a b s}, add a b = .ok s → sub s b = .ok a ∧ sub s a = .ok b
  add_of_sub : ∀ {a b d}, sub a b = .ok d → add d b = .ok a ∧ sub a d = .ok b

namespace Quantity

variable {a b d s : Quantity}

/-- A sum of nonzero quantities is found exactly when the aligned sum fits. -/
theorem add_eq_ok_iff (ha : a.coefficient ≠ 0) (hb : b.coefficient ≠ 0) :
    add a b = .ok s ↔ s.value = a.value + b.value ∧ alignedSum a b < 2 ^ 64 := by
  have hdue := classified_add ha hb
  constructor
  · intro h
    exact ⟨value_of_add h, hdue.size_lt_of_ok h⟩
  · intro h
    rw [← exact_alignedSum] at h
    exact hdue.eq_ok h.2 (alignedSum_ne_zero ha) h.1

/-- A difference above zero is found exactly when the larger operand fits where it is aligned. -/
theorem sub_eq_ok_iff (hb : b.coefficient ≠ 0) (hlt : b.value < a.value) :
    sub a b = .ok d ↔
      d.value = a.value - b.value ∧ a.scaledTo (commonExponent a b) < 2 ^ 64 := by
  have hdue := classified_sub hb hlt
  constructor
  · intro h
    exact ⟨value_of_sub h, hdue.size_lt_of_ok h⟩
  · intro h
    rw [← exact_alignedDifference hlt] at h
    exact hdue.eq_ok h.2 (alignedDifference_ne_zero hlt) h.1

theorem add_comm_of_ok (h : add a b = .ok s) : add b a = .ok s := by
  rw [← variant_eq_ok_iff, variant_add_comm, variant_eq_ok_iff]
  exact h

theorem sub_right_of_add (h : add a b = .ok s) : sub s b = .ok a := by
  by_cases hb : b.coefficient = 0
  · rw [eq_zero_of_coefficient hb, add_zero] at h
    cases h
    rw [eq_zero_of_coefficient hb, sub_zero]
  · by_cases ha : a.coefficient = 0
    · rw [eq_zero_of_coefficient ha, zero_add] at h
      cases h
      rw [sub_of_value_eq rfl, eq_zero_of_coefficient ha]
    · obtain ⟨hvalue, hfits⟩ := (add_eq_ok_iff ha hb).1 h
      have hlt : b.value < s.value := by
        rw [hvalue]
        exact lt_add_of_pos_left _ (value_pos ha)
      have hs := coefficient_ne_zero_of_lt hlt
      rw [← exact_alignedSum] at hvalue
      -- the sum is not normalised below the exponent at which it was taken
      have hcommon : commonExponent a b ≤ commonExponent s b :=
        Int.le_min.2 ⟨le_exponent_of_value hs hvalue, commonExponent_le_right a b⟩
      have hscaled : s.scaledTo (commonExponent s b) ≤ alignedSum a b := by
        apply Decimal.le_of_exact_eq hcommon
        rw [exact_scaledTo (commonExponent_le_left s b), hvalue]
      rw [sub_eq_ok_iff hb hlt, hvalue, exact_alignedSum, add_sub_cancel_right]
      exact ⟨rfl, Nat.lt_of_le_of_lt hscaled hfits⟩

theorem add_right_of_sub (h : sub a b = .ok d) : add d b = .ok a := by
  rcases lt_trichotomy a.value b.value with hlt | heq | hgt
  · rw [sub_of_value_lt hlt] at h
    cases h
  · rw [sub_of_value_eq heq] at h
    cases h
    rw [zero_add, value_injective heq]
  · by_cases hb : b.coefficient = 0
    · rw [eq_zero_of_coefficient hb, sub_zero] at h
      cases h
      rw [eq_zero_of_coefficient hb, add_zero]
    · obtain ⟨hvalue, hfits⟩ := (sub_eq_ok_iff hb hgt).1 h
      have hd : d.coefficient ≠ 0 := by
        intro hd
        rw [value_of_coefficient_eq_zero hd] at hvalue
        exact absurd hgt (not_lt.2 (sub_nonpos.1 hvalue.symm.le))
      have hsum : a.value = d.value + b.value := by
        rw [hvalue, sub_add_cancel]
      rw [← exact_alignedDifference hgt] at hvalue
      have hcommon : commonExponent a b ≤ commonExponent d b :=
        Int.le_min.2 ⟨le_exponent_of_value hd hvalue, commonExponent_le_right a b⟩
      have haligned : alignedSum d b ≤ a.scaledTo (commonExponent a b) := by
        apply Decimal.le_of_exact_eq hcommon
        rw [exact_alignedSum, exact_scaledTo (commonExponent_le_left a b), hsum]
      rw [add_eq_ok_iff hd hb]
      exact ⟨hsum, Nat.lt_of_le_of_lt haligned hfits⟩

theorem undoes_add_sub : Undoes add sub where
  sub_of_add h := ⟨sub_right_of_add h, sub_right_of_add (add_comm_of_ok h)⟩
  add_of_sub h :=
    ⟨add_right_of_sub h, sub_right_of_add (add_comm_of_ok (add_right_of_sub h))⟩

end Quantity

end WeightedKripke
