import WeightedKripke.Operators
import WeightedKripke.Proofs.Cost.Cancellation

/-!
# Totals of costs

One cost is added by adding its components, so a running total of costs is the pair of the
running totals of times and of energies.  It is broken off by the first cost with a
component that cannot be added.
-/

namespace WeightedKripke

namespace Cost

variable {a b c start : Cost} {items : List Cost} {e : QuantityError}

/-! ## Adding one cost -/

/-- A cost cannot be added for the error of the time, or for that of the energy alone. -/
theorem add_eq_error_iff :
    add a b = .error e ↔ a.time.add b.time = .error e ∨
      (∃ time, a.time.add b.time = .ok time) ∧ a.energy.add b.energy = .error e := by
  cases htime : a.time.add b.time with
  | error timeError =>
      have hadd : add a b = .error timeError := by
        rw [add, htime]
        rfl
      rw [hadd]
      simp
  | ok time =>
      cases henergy : a.energy.add b.energy with
      | error energyError =>
          have hadd : add a b = .error energyError := by
            rw [add, htime, henergy]
            rfl
          rw [hadd]
          simp
      | ok energy =>
          have hadd : add a b = .ok ⟨time, energy⟩ := add_eq_ok_iff.2 ⟨htime, henergy⟩
          rw [hadd]
          simp

/-! ## Adding a list -/

/--
`e` is the error of the first cost that cannot be added to what has been added before it.

Up to there both components have a running total.  The error of the time comes first.
-/
def FailsFirst (start : Cost) (items : List Cost) (e : QuantityError) : Prop :=
  ∃ (before : List Cost) (item : Cost) (after : List Cost) (running : Cost),
    items = before ++ item :: after ∧
    (before.map Cost.time).foldlM Quantity.add start.time = .ok running.time ∧
    (before.map Cost.energy).foldlM Quantity.add start.energy = .ok running.energy ∧
    (running.time.add item.time = .error e ∨
      (∃ time, running.time.add item.time = .ok time) ∧
        running.energy.add item.energy = .error e)

/-- Both components have a running total behind a cost that is added. -/
theorem failsFirst_cons_iff {item : Cost} :
    FailsFirst start (item :: items) e ↔ add start item = .error e ∨
      ∃ next, add start item = .ok next ∧ FailsFirst next items e := by
  constructor
  · rintro ⟨before, last, after, running, hitems, htime, henergy, herror⟩
    cases before with
    | nil =>
        obtain ⟨rfl, -⟩ := List.cons.inj hitems
        cases start
        cases running
        cases htime
        cases henergy
        exact Or.inl (add_eq_error_iff.2 herror)
    | cons first before =>
        obtain ⟨rfl, hrest⟩ := List.cons.inj hitems
        rw [List.map_cons, List.foldlM_cons] at htime henergy
        obtain ⟨time, hnext, htime⟩ := bind_eq_ok_iff.1 htime
        obtain ⟨energy, hnext', henergy⟩ := bind_eq_ok_iff.1 henergy
        exact Or.inr ⟨⟨time, energy⟩, add_eq_ok_iff.2 ⟨hnext, hnext'⟩,
          before, last, after, running, hrest, htime, henergy, herror⟩
  · rintro (hfirst | ⟨next, hnext, before, last, after, running, rfl, htime, henergy, herror⟩)
    · exact ⟨[], item, items, start, rfl, rfl, rfl, add_eq_error_iff.1 hfirst⟩
    · obtain ⟨hnext, hnext'⟩ := add_eq_ok_iff.1 hnext
      refine ⟨item :: before, last, after, running, rfl, ?_, ?_, herror⟩
      · rw [List.map_cons, List.foldlM_cons, hnext]
        exact htime
      · rw [List.map_cons, List.foldlM_cons, hnext']
        exact henergy

/-- A running total of costs is the pair of the running totals of their components. -/
theorem foldlM_add_eq_ok_iff :
    items.foldlM add start = .ok c ↔
      (items.map Cost.time).foldlM Quantity.add start.time = .ok c.time ∧
        (items.map Cost.energy).foldlM Quantity.add start.energy = .ok c.energy := by
  induction items generalizing start with
  | nil =>
      constructor
      · rintro ⟨⟩
        exact ⟨rfl, rfl⟩
      · rintro ⟨htime, henergy⟩
        exact congrArg Except.ok (Cost.ext (Except.ok.inj htime) (Except.ok.inj henergy))
  | cons item items ih =>
      rw [List.map_cons, List.map_cons, List.foldlM_cons, List.foldlM_cons, List.foldlM_cons]
      constructor
      · intro h
        obtain ⟨next, hnext, h⟩ := bind_eq_ok_iff.1 h
        obtain ⟨htime, henergy⟩ := add_eq_ok_iff.1 hnext
        rw [htime, henergy]
        exact ih.1 h
      · rintro ⟨htime, henergy⟩
        obtain ⟨time, hnext, htime⟩ := bind_eq_ok_iff.1 htime
        obtain ⟨energy, hnext', henergy⟩ := bind_eq_ok_iff.1 henergy
        have hadd : add start item = .ok ⟨time, energy⟩ := add_eq_ok_iff.2 ⟨hnext, hnext'⟩
        rw [hadd]
        exact ih.2 ⟨htime, henergy⟩

/-- Adding a list fails where its first cost cannot be added, and nowhere else. -/
theorem foldlM_add_eq_error_iff :
    items.foldlM add start = .error e ↔ FailsFirst start items e := by
  induction items generalizing start with
  | nil =>
      refine iff_of_false (fun h => nomatch h) ?_
      rintro ⟨before, item, after, running, hitems, -⟩
      simp at hitems
  | cons item items ih =>
      rw [failsFirst_cons_iff, List.foldlM_cons]
      cases hadd : add start item with
      | error addError =>
          constructor
          · rintro ⟨⟩
            exact Or.inl rfl
          · rintro (⟨⟨⟩⟩ | ⟨_, ⟨⟩, _⟩)
            rfl
      | ok next =>
          constructor
          · intro h
            exact Or.inr ⟨next, rfl, ih.1 h⟩
          · rintro (⟨⟨⟩⟩ | ⟨_, ⟨⟩, h⟩)
            exact ih.2 h

/-! ## Totals -/

theorem total_eq_ok_iff :
    total items = .ok c ↔ Quantity.total (items.map Cost.time) = .ok c.time ∧
      Quantity.total (items.map Cost.energy) = .ok c.energy := by
  rw [total_eq, orPanic_eq_ok_iff, Quantity.total_eq_ok_iff, Quantity.total_eq_ok_iff]
  exact foldlM_add_eq_ok_iff

theorem total_eq_error_iff {p : Panic} :
    total items = .error p ↔ ∃ e, FailsFirst zero items e ∧ p = ⟨e.message⟩ := by
  rw [total_eq, orPanic_eq_error_iff]
  exact exists_congr fun e => and_congr_left fun _ => foldlM_add_eq_error_iff

/--
The total of a list of costs is the cost of the totals of its components, if there are both.

Otherwise the first cost with a component that cannot be added breaks it off, with the text
of that component's error.  Costs that are referred to have the same total, and checked
additions return the total, or the error whose text it shows.
-/
theorem total_by_component (items : List Cost) :
    (∀ c, total items = .ok c ↔ Quantity.total (items.map Cost.time) = .ok c.time ∧
      Quantity.total (items.map Cost.energy) = .ok c.energy) ∧
    (∀ p, total items = .error p ↔ ∃ e, FailsFirst zero items e ∧ p = ⟨e.message⟩) ∧
    (∀ (ι : Type) (read : ι → Cost) (references : List ι),
      references.map read = items → totalOf read references = total items) ∧
    total items = orPanic (items.foldlM add zero) ∧
    (∀ e, items.foldlM add zero = .error e ↔ FailsFirst zero items e) := by
  refine ⟨fun _ => total_eq_ok_iff, fun _ => total_eq_error_iff, ?_, total_eq items,
    fun _ => foldlM_add_eq_error_iff⟩
  rintro ι read references rfl
  exact totalOf_eq read references

open Quantity in
/--
An energy that cannot be added comes before a later time that cannot be added, and a time
before the energy of the same cost; times and energies that can all be added have a total.
-/
theorem total_by_component_at_limits :
    total [⟨one, widest⟩, ⟨farthest, five⟩, ⟨tooFar, one⟩] =
        .error ⟨(QuantityError.overflow (.sum widest five)).message⟩ ∧
      total [⟨widest, widest⟩, ⟨one, five⟩] =
        .error ⟨(QuantityError.overflow (.sum widest one)).message⟩ ∧
      totalOf (fun energy => ⟨one, energy⟩) [widest, Quantity.zero] = .ok ⟨two, widest⟩ := by
  obtain ⟨-, hlate, -⟩ :=
    total_by_component [⟨one, widest⟩, ⟨farthest, five⟩, ⟨tooFar, one⟩]
  obtain ⟨-, hboth, -⟩ := total_by_component [⟨widest, widest⟩, ⟨one, five⟩]
  obtain ⟨hall, -, hreferences, -⟩ := total_by_component [⟨one, widest⟩, ⟨one, Quantity.zero⟩]
  refine ⟨?_, ?_, ?_⟩
  · refine (hlate _).2 ⟨.overflow (.sum widest five), ?_, rfl⟩
    exact ⟨[⟨one, widest⟩], ⟨farthest, five⟩, [⟨tooFar, one⟩], ⟨one, widest⟩, rfl, rfl, rfl,
      Or.inr ⟨⟨_, rfl⟩, rfl⟩⟩
  · refine (hboth _).2 ⟨.overflow (.sum widest one), ?_, rfl⟩
    exact ⟨[⟨widest, widest⟩], ⟨one, five⟩, [], ⟨widest, widest⟩, rfl, rfl, rfl, Or.inl rfl⟩
  · exact (hreferences _ _ _ rfl).trans ((hall _).2 ⟨rfl, rfl⟩)

end Cost

end WeightedKripke
