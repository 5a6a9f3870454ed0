import WeightedKripke.Cost
import WeightedKripke.Proofs.Quantity.Cancellation

/-!
# Costs are taken back by component

A sum or a difference of costs is found exactly when it is found in both components,
so what holds of the operations on quantities passes to those on costs.
-/

namespace WeightedKripke

namespace Cost

variable {a b c : Cost}

/-- Two computations, the time first, give the cost of their results when both succeed. -/
theorem components_eq_ok_iff {time energy : Except QuantityError Quantity} :
    (do
      let t ← time
      let e ← energy
      return (⟨t, e⟩ : Cost)) = .ok c ↔ time = .ok c.time ∧ energy = .ok c.energy := by
  constructor
  · intro h
    obtain ⟨t, ht, h⟩ := bind_eq_ok_iff.1 h
    obtain ⟨e, he, h⟩ := bind_eq_ok_iff.1 h
    cases h
    exact ⟨ht, he⟩
  · intro h
    rw [h.1, h.2]
    rfl

theorem add_eq_ok_iff :
    add a b = .ok c ↔ a.time.add b.time = .ok c.time ∧ a.energy.add b.energy = .ok c.energy :=
  components_eq_ok_iff

theorem sub_eq_ok_iff :
    sub a b = .ok c ↔ a.time.sub b.time = .ok c.time ∧ a.energy.sub b.energy = .ok c.energy :=
  components_eq_ok_iff

theorem undoes_add_sub : Undoes add sub where
  sub_of_add h := by
    obtain ⟨htime, henergy⟩ := add_eq_ok_iff.1 h
    have time := Quantity.undoes_add_sub.sub_of_add htime
    have energy := Quantity.undoes_add_sub.sub_of_add henergy
    exact ⟨sub_eq_ok_iff.2 ⟨time.1, energy.1⟩, sub_eq_ok_iff.2 ⟨time.2, energy.2⟩⟩
  add_of_sub h := by
    obtain ⟨htime, henergy⟩ := sub_eq_ok_iff.1 h
    have time := Quantity.undoes_add_sub.add_of_sub htime
    have energy := Quantity.undoes_add_sub.add_of_sub henergy
    exact ⟨add_eq_ok_iff.2 ⟨time.1, energy.1⟩, sub_eq_ok_iff.2 ⟨time.2, energy.2⟩⟩

end Cost

/--
Addition and subtraction of quantities take each other back, and so do those of costs.

An operation that takes back another one does not fail.
-/
theorem arithmetic_is_undone : Undoes Quantity.add Quantity.sub ∧ Undoes Cost.add Cost.sub :=
  ⟨Quantity.undoes_add_sub, Cost.undoes_add_sub⟩

open Quantity in
/--
A sum that was normalised to a larger exponent and a difference that was taken at a
smaller one are taken back at the limits of the coefficients; so are costs.
-/
theorem arithmetic_is_undone_at_limits :
    (∃ s, Quantity.add nearWidest one = .ok s ∧ s.exponent = 1 ∧
      Quantity.sub s one = .ok nearWidest ∧ Quantity.sub s nearWidest = .ok one) ∧
      (∃ d, Quantity.sub farthest one = .ok d ∧ Quantity.add d one = .ok farthest ∧
        Quantity.sub farthest d = .ok one) ∧
      ∃ c, Cost.add ⟨nearWidest, topFive⟩ ⟨one, topOne⟩ = .ok c ∧
        Cost.sub c ⟨one, topOne⟩ = .ok ⟨nearWidest, topFive⟩ := by
  obtain ⟨hquantity, hcost⟩ := arithmetic_is_undone
  obtain ⟨s, hs⟩ : ∃ s, Quantity.add nearWidest one = .ok s := ⟨_, rfl⟩
  obtain ⟨d, hd⟩ : ∃ d, Quantity.sub farthest one = .ok d := ⟨_, rfl⟩
  obtain ⟨c, hc⟩ : ∃ c, Cost.add ⟨nearWidest, topFive⟩ ⟨one, topOne⟩ = .ok c := ⟨_, rfl⟩
  have hexponent : s.exponent = 1 := by
    cases hs
    rfl
  exact ⟨⟨s, hs, hexponent, hquantity.sub_of_add hs⟩, ⟨d, hd, hquantity.add_of_sub hd⟩,
    c, hc, (hcost.sub_of_add hc).1⟩

end WeightedKripke
