import WeightedKripke.Operators
import WeightedKripke.Proofs.Quantity.Difference
import WeightedKripke.Proofs.Quantity.Product
import WeightedKripke.Proofs.Quantity.Sum

/-!
# Arithmetic is exact

What an operation returns has the sum, the difference or the product of the values
of its operands, which is part of the outcome that is due.
-/

namespace WeightedKripke

/-- A computation succeeds when its steps do. -/
theorem bind_eq_ok_iff {ε α β : Type} {x : Except ε α} {f : α → Except ε β} {b : β} :
    x >>= f = .ok b ↔ ∃ a, x = .ok a ∧ f a = .ok b := by
  cases x with
  | error e => exact iff_of_false (fun h => nomatch h) fun ⟨_, h, _⟩ => nomatch h
  | ok a =>
      constructor
      · intro h
        exact ⟨a, rfl, h⟩
      · rintro ⟨_, ⟨⟩, h⟩
        exact h

namespace Quantity

variable {a b q : Quantity}

theorem value_of_add (h : add a b = .ok q) : q.value = a.value + b.value := by
  by_cases hb : b.coefficient = 0
  · rw [eq_zero_of_coefficient hb, add_zero] at h
    cases h
    rw [value_of_coefficient_eq_zero hb, Rat.add_zero]
  · by_cases ha : a.coefficient = 0
    · rw [eq_zero_of_coefficient ha, zero_add] at h
      cases h
      rw [value_of_coefficient_eq_zero ha, Rat.zero_add]
    · rw [(classified_add ha hb).value_of_ok h, exact_alignedSum]

theorem value_of_sub (h : sub a b = .ok q) : q.value = a.value - b.value := by
  rcases lt_trichotomy a.value b.value with hlt | heq | hgt
  · rw [sub_of_value_lt hlt] at h
    cases h
  · rw [sub_of_value_eq heq] at h
    cases h
    rw [heq, sub_self, value_zero]
  · by_cases hb : b.coefficient = 0
    · rw [eq_zero_of_coefficient hb, sub_zero] at h
      cases h
      rw [value_of_coefficient_eq_zero hb]
      ring
    · rw [(classified_sub hb hgt).value_of_ok h, exact_alignedDifference hgt]

theorem value_of_foldlM_add {items : List Quantity} (h : items.foldlM add a = .ok q) :
    q.value = a.value + (items.map value).sum := by
  induction items generalizing a with
  | nil =>
      cases h
      simp
  | cons item items ih =>
      rw [List.foldlM_cons] at h
      obtain ⟨next, hnext, h⟩ := bind_eq_ok_iff.1 h
      rw [ih h, value_of_add hnext, List.map_cons, List.sum_cons, add_assoc]

theorem value_of_total {items : List Quantity} (h : total items = .ok q) :
    q.value = (items.map value).sum := by
  rw [value_of_foldlM_add (total_eq_ok_iff.1 h), value_zero, Rat.zero_add]

end Quantity

end WeightedKripke
