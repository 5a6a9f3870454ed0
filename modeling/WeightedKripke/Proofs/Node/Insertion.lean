import WeightedKripke.Dot.Label
import WeightedKripke.Json.Graph
import WeightedKripke.Proofs.Node.Order
import WeightedKripke.Proofs.SortedMap
import WeightedKripke.Proofs.Structure.Validity

/-!
# Nodes are known by their values

A node holds the last value that was put in under each name, listed by name.  It does
not show how its properties were put in: insertions with the same last values give one
node, which stands at one place in the order and has one label and one text.
-/

namespace WeightedKripke

namespace Node

section Insertion

variable {V : Type}

/-- The node with properties put in one after the other. -/
def inserting (node : Node V) (insertions : List (Name × V)) : Node V :=
  { node with
    properties :=
      insertions.foldl (fun m entry => m.insert entry.1 entry.2) node.properties }

/-- The properties of a node are those that a lookup gives, in the order of their names. -/
structure Holds (node : Node V) (value? : Name → Option V) : Prop where
  sorted : node.properties.entries.Pairwise fun a b => a.1.Before b.1
  mem_iff : ∀ name value,
    (name, value) ∈ node.properties.entries ↔ value? name = some value

theorem holds_get? (node : Node V) : node.Holds node.properties.get? where
  sorted := node.properties.ascending.imp Name.compare_eq_lt_iff.1
  mem_iff _ _ := SortedMap.get?_eq_some_iff.symm

/-- The value of a name after insertions: its last one, or else the one that was there. -/
def valueAfter? (node : Node V) (insertions : List (Name × V)) (name : Name) : Option V :=
  (SortedMap.lastValue? insertions name).or (node.properties.get? name)

theorem get?_inserting (node : Node V) (insertions : List (Name × V)) :
    (node.inserting insertions).properties.get? = node.valueAfter? insertions :=
  funext fun name => SortedMap.get?_foldl_insert insertions node.properties name

theorem holds_inserting (node : Node V) (insertions : List (Name × V)) :
    (node.inserting insertions).Holds (node.valueAfter? insertions) := by
  rw [← get?_inserting]
  exact holds_get? _

/-- Insertions give the same node exactly when they leave the same values. -/
theorem inserting_eq_iff {node : Node V} {insertions others : List (Name × V)} :
    node.inserting insertions = node.inserting others ↔
      node.valueAfter? insertions = node.valueAfter? others := by
  rw [← get?_inserting, ← get?_inserting]
  constructor
  · intro h
    rw [h]
  · intro h
    exact Node.ext rfl rfl rfl rfl (SortedMap.ext_get? fun name => congrFun h name)

theorem valueAfter?_congr (node : Node V) {insertions others : List (Name × V)}
    (h : ∀ name,
      SortedMap.lastValue? insertions name = SortedMap.lastValue? others name) :
    node.valueAfter? insertions = node.valueAfter? others := by
  funext name
  rw [valueAfter?, valueAfter?, h]

end Insertion

variable {V : Type} [PropertyValue V] [JsonCodec V]

structure Alike (a b : Node V) : Prop where
  eq : a = b
  tie : compare a b = .eq
  compare_left : ∀ other, compare a other = compare b other
  compare_right : ∀ other, compare other a = compare other b
  label : Dot.nodeLabel a = Dot.nodeLabel b
  compact : JsonCodec.toCompact a = JsonCodec.toCompact b
  indented : JsonCodec.toIndented a = JsonCodec.toIndented b

theorem alike_of_eq {a b : Node V} (h : a = b) : Alike a b := by
  subst h
  exact ⟨rfl, Std.ReflCmp.compare_self, fun _ => rfl, fun _ => rfl, rfl, rfl, rfl⟩

/--
Nodes are in a total order by their values, for every ordered type of property values.

Of the properties that are put in, the last value of each name makes up the node, and
with it the place of the node in the order, its label and its text.
-/
theorem ordered_by_value :
    (∀ a b : Node V, compare a b = .lt ↔ a.Before b) ∧ TotallyOrdered (Node V) ∧
      ∀ (node : Node V) (insertions : List (Name × V)),
        (node.inserting insertions).Holds (node.valueAfter? insertions) ∧
          ∀ others : List (Name × V),
            (∀ name,
              SortedMap.lastValue? insertions name = SortedMap.lastValue? others name) →
            (node.inserting insertions).Alike (node.inserting others) := by
  refine ⟨fun _ _ => compare_eq_lt_iff, totallyOrdered (Node V), ?_⟩
  intro node insertions
  refine ⟨holds_inserting node insertions, ?_⟩
  intro others h
  apply alike_of_eq
  rw [inserting_eq_iff]
  exact valueAfter?_congr node h

def bareLamp : Node String :=
  ⟨.read, ⟨"Dim", by decide⟩, true, ⟨"Bright", by decide⟩, .empty⟩

def settings : List (Name × String) :=
  [(⟨"tone", by decide⟩, "warm"), (⟨"power", by decide⟩, "low")]

/-- The same settings in another order, of which one was put in wrongly at first. -/
def corrections : List (Name × String) :=
  [(⟨"tone", by decide⟩, "cold"), (⟨"power", by decide⟩, "low"), (⟨"tone", by decide⟩, "warm")]

theorem lastValue?_corrections (name : Name) :
    SortedMap.lastValue? corrections name = SortedMap.lastValue? settings name := by
  by_cases htone : name = ⟨"tone", by decide⟩
  · rw [htone]
    rfl
  · by_cases hpower : name = ⟨"power", by decide⟩
    · rw [hpower]
      rfl
    · simp [corrections, settings, SortedMap.lastValue?_cons, htone, hpower]

/--
The settings make up one node in either order.  It lies between the lamp without
properties and a lamp in a later state.
-/
theorem ordered_by_value_lamp :
    bareLamp.inserting corrections = bareLamp.inserting settings ∧
      (bareLamp.inserting corrections).Alike (bareLamp.inserting settings) ∧
      compare bareLamp (bareLamp.inserting settings) = .lt ∧
      (compare (bareLamp.inserting settings)
        (KripkeStructure.lamp.lampNode ⟨"On", by decide⟩)).isLE ∧
      (compare bareLamp (KripkeStructure.lamp.lampNode ⟨"On", by decide⟩)).isLE := by
  obtain ⟨hlt, horder, hinserting⟩ := ordered_by_value (V := String)
  have hsame := (hinserting bareLamp corrections).2 settings lastValue?_corrections
  have heq := horder.antisymm (bareLamp.inserting corrections) (bareLamp.inserting settings)
    (by decide) (by decide)
  have hbefore : compare bareLamp (bareLamp.inserting settings) = .lt :=
    (hlt _ _).2 (.properties rfl rfl rfl rfl (.start rfl))
  have hon : (compare (bareLamp.inserting settings)
      (KripkeStructure.lamp.lampNode ⟨"On", by decide⟩)).isLE := by
    decide
  have hle := horder.trans _ _ _ (Ordering.isLE_of_eq_lt hbefore) hon
  exact ⟨heq, hsame, hbefore, hon, hle⟩

end Node

end WeightedKripke
