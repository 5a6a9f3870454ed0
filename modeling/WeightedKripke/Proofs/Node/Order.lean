import WeightedKripke.Proofs.Name.Order
import WeightedKripke.Structure.Validation

/-!
# The order of nodes

Two nodes that differ are in the order of the first field in which they do.  Properties
are the last field: they are listed by name, and two lists of them are in the order of
their first difference.  Comparison follows this order and is total, and only equal
nodes tie in it.
-/

namespace WeightedKripke

/-- Comparison is a total order in which only equal values tie. -/
structure TotallyOrdered (α : Type) [Ord α] : Prop where
  eq_iff : ∀ a b : α, compare a b = .eq ↔ a = b
  swap : ∀ a b : α, compare b a = (compare a b).swap
  antisymm : ∀ a b : α, (compare a b).isLE → (compare b a).isLE → a = b
  trans : ∀ a b c : α, (compare a b).isLE → (compare b c).isLE → (compare a c).isLE
  total : ∀ a b : α, (compare a b).isLE ∨ (compare b a).isLE

theorem totallyOrdered (α : Type) [Ord α] [Std.TransOrd α] [Std.LawfulEqOrd α] :
    TotallyOrdered α where
  eq_iff _ _ := Std.LawfulEqOrd.compare_eq_iff_eq
  swap _ _ := Std.OrientedOrd.eq_swap
  antisymm _ _ hab hba := Std.LawfulEqOrd.eq_of_compare (Std.OrientedCmp.isLE_antisymm hab hba)
  trans _ _ _ hab hbc := Std.TransCmp.isLE_trans hab hbc
  total a b := by
    by_cases hab : (compare a b).isLE
    · exact Or.inl hab
    · exact Or.inr (isLE_of_not_isLE hab)

namespace Phase

theorem rank_eq_iff {a b : Phase} : a.rank = b.rank ↔ a = b :=
  ⟨rank_injective, congrArg rank⟩

theorem compare_rank_eq_lt_iff {a b : Phase} :
    compare a.rank b.rank = .lt ↔ a = .read ∧ b = .write := by
  cases a <;> cases b <;> decide

end Phase

namespace Node

variable {V : Type} [PropertyValue V]

inductive PropertyBefore (a b : Name × V) : Prop where
  | name (lt : a.1.Before b.1) : PropertyBefore a b
  | value (name : a.1 = b.1) (lt : compare a.2 b.2 = .lt) : PropertyBefore a b

/-- The first field in which two nodes differ puts the first node before the second one. -/
inductive Before (a b : Node V) : Prop where
  | phase (first : a.phase = .read) (second : b.phase = .write) : Before a b
  | currentState (phase : a.phase = b.phase) (lt : a.currentState.Before b.currentState) :
      Before a b
  | executeOnEntry (phase : a.phase = b.phase) (state : a.currentState = b.currentState)
      (first : a.executeOnEntry = false) (second : b.executeOnEntry = true) : Before a b
  | nextState (phase : a.phase = b.phase) (state : a.currentState = b.currentState)
      (entry : a.executeOnEntry = b.executeOnEntry) (lt : a.nextState.Before b.nextState) :
      Before a b
  | properties (phase : a.phase = b.phase) (state : a.currentState = b.currentState)
      (entry : a.executeOnEntry = b.executeOnEntry) (next : a.nextState = b.nextState)
      (lt : ListBefore PropertyBefore a.properties.entries b.properties.entries) : Before a b

theorem compare_flag_eq_lt_iff {a b : Bool} :
    compare a b = .lt ↔ a = false ∧ b = true := by
  cases a <;> cases b <;> decide

theorem compareEntries_eq_lt_iff {a b : Name × V} :
    SortedMap.compareEntries a b = .lt ↔ PropertyBefore a b := by
  rw [SortedMap.compareEntries, compareLex, Ordering.then_eq_lt, compareOn, compareOn,
    Name.compare_eq_lt_iff, Std.LawfulEqOrd.compare_eq_iff_eq]
  constructor
  · intro h
    rcases h with hname | ⟨hname, hvalue⟩
    · exact .name hname
    · exact .value hname hvalue
  · intro h
    cases h with
    | name lt => exact Or.inl lt
    | value name lt => exact Or.inr ⟨name, lt⟩

theorem compare_properties_eq_lt_iff {m n : SortedMap Name V} :
    compare m n = .lt ↔ ListBefore PropertyBefore m.entries n.entries := by
  have hitems : (fun a b : Name × V => SortedMap.compareEntries a b = .lt) = PropertyBefore := by
    funext a b
    exact propext compareEntries_eq_lt_iff
  rw [SortedMap.compare_def, compareLex_eq_lt_iff, hitems]

theorem compare_eq_lt_iff {a b : Node V} : compare a b = .lt ↔ a.Before b := by
  have hcompare : compare a b = Node.compare a b := rfl
  rw [hcompare]
  simp only [Node.compare, compareLex, compareOn, Ordering.then_eq_lt,
    Phase.compare_rank_eq_lt_iff, Name.compare_eq_lt_iff, compare_flag_eq_lt_iff,
    compare_properties_eq_lt_iff, Std.LawfulEqOrd.compare_eq_iff_eq, Phase.rank_eq_iff]
  -- Each alternative of the comparison is a tie in all fields before, which makes them equal.
  constructor
  · intro h
    rcases h with ⟨hread, hwrite⟩ | ⟨hphase, h⟩
    · exact .phase hread hwrite
    rcases h with hlt | ⟨hstate, h⟩
    · exact .currentState hphase hlt
    rcases h with ⟨hfalse, htrue⟩ | ⟨hentry, h⟩
    · exact .executeOnEntry hphase hstate hfalse htrue
    rcases h with hlt | ⟨hnext, hlt⟩
    · exact .nextState hphase hstate hentry hlt
    · exact .properties hphase hstate hentry hnext hlt
  · intro h
    cases h with
    | phase first second => exact Or.inl ⟨first, second⟩
    | currentState phase lt => exact Or.inr ⟨phase, Or.inl lt⟩
    | executeOnEntry phase state first second =>
        exact Or.inr ⟨phase, Or.inr ⟨state, Or.inl ⟨first, second⟩⟩⟩
    | nextState phase state entry lt =>
        exact Or.inr ⟨phase, Or.inr ⟨state, Or.inr ⟨entry, Or.inl lt⟩⟩⟩
    | properties phase state entry next lt =>
        exact Or.inr ⟨phase, Or.inr ⟨state, Or.inr ⟨entry, Or.inr ⟨next, lt⟩⟩⟩⟩

end Node

end WeightedKripke
