import WeightedKripke.Structure.Basic

/-!
# Validation

A structure is well formed when no node is listed twice and every source, every
target and every initial node is listed.  `KripkeStructure.validate` reports the
first violation: duplicates, then sources, targets by position, initial nodes.
Among unlisted sources or initial nodes the smallest is reported, so the answer
does not depend on how the map and the set are enumerated.
-/

namespace WeightedKripke

inductive GraphError (V : Type) where
  /-- The same node is listed at two positions. -/
  | duplicateNode (first second : Nat)
  | missingEdgeSource (node : Node V)
  /-- An edge, by source position and number, whose target is not listed. -/
  | missingEdgeTarget (source edge : Nat) (node : Node V)
  | missingInitialState (node : Node V)
deriving DecidableEq

namespace GraphError

variable {V : Type}

def positionText (n : Nat) : String :=
  String.ofList (Decimal.natText n)

def message [PropertyValue V] : GraphError V → String
  | duplicateNode first second =>
      "Node " ++ positionText second ++ " duplicates node " ++ positionText first ++
        ", so its display identity is ambiguous"
  | missingEdgeSource node =>
      "Edge source " ++ node.summary ++ " is not in the node list"
  | missingEdgeTarget source edge node =>
      "Edge " ++ positionText edge ++ " from node " ++ positionText source ++
        " targets " ++ node.summary ++ ", which is not in the node list"
  | missingInitialState node =>
      "Initial state " ++ node.summary ++ " is not in the node list"

end GraphError

def least? {α : Type} [Ord α] : List α → Option α
  | [] => none
  | a :: rest =>
      match least? rest with
      | none => some a
      | some b => if (compare a b).isLE then some a else some b

theorem least?_eq_none_iff {α : Type} [Ord α] {members : List α} :
    least? members = none ↔ members = [] := by
  cases members with
  | nil => simp [least?]
  | cons a rest =>
      unfold least?
      split
      · simp
      · split <;> simp

theorem least?_mem {α : Type} [Ord α] {members : List α} {a : α}
    (h : least? members = some a) : a ∈ members := by
  induction members generalizing a with
  | nil => simp [least?] at h
  | cons first rest ih =>
      unfold least? at h
      split at h
      · cases h
        exact List.mem_cons_self
      · rename_i b hb
        split at h
        · cases h
          exact List.mem_cons_self
        · cases h
          exact List.mem_cons_of_mem first (ih hb)

theorem isLE_of_not_isLE {α : Type} [Ord α] [Std.TransOrd α] {a b : α}
    (h : ¬ (compare a b).isLE) : (compare b a).isLE := by
  rw [Std.OrientedOrd.eq_swap]
  generalize compare a b = order at h
  cases order <;> simp_all

theorem least?_isLE {α : Type} [Ord α] [Std.TransOrd α] {members : List α} {a b : α}
    (h : least? members = some a) (hb : b ∈ members) : (compare a b).isLE := by
  induction members generalizing a with
  | nil => simp at hb
  | cons first rest ih =>
      unfold least? at h
      rcases List.mem_cons.1 hb with hb | hb
      · subst hb
        split at h
        · cases h
          simp
        · split at h
          · cases h
            simp
          · rename_i hle
            cases h
            exact isLE_of_not_isLE hle
      · split at h
        · rename_i hnone
          rw [least?_eq_none_iff] at hnone
          simp [hnone] at hb
        · rename_i c hc
          split at h
          · rename_i hle
            cases h
            exact Std.TransCmp.isLE_trans hle (ih hc hb)
          · cases h
            exact ih hc hb

/--
The first member that occurred before, behind the members already seen.

The answer holds the position of the earlier occurrence and that of the member.
-/
def repetitionAfter? {α : Type} [DecidableEq α] (seen : List α) :
    List α → Option (Nat × Nat)
  | [] => none
  | a :: rest =>
      match seen.idxOf? a with
      | some first => some (first, seen.length)
      | none => repetitionAfter? (seen ++ [a]) rest

/-- Positions of the first member of a list that repeats an earlier one, earlier first. -/
def firstRepetition? {α : Type} [DecidableEq α] (members : List α) : Option (Nat × Nat) :=
  repetitionAfter? [] members

namespace KripkeStructure

variable {V : Type} [PropertyValue V]

def unlistedSource? (s : KripkeStructure V) : Option (Node V) :=
  least? (s.edges.sources.filter fun node => decide (node ∉ s.nodes))

def unlistedInitial? (s : KripkeStructure V) : Option (Node V) :=
  least? (s.initialStates.filter fun node => decide (node ∉ s.nodes))

/-- The first edge of a listed node, by position and number, whose target is not listed. -/
def unlistedTarget? (s : KripkeStructure V) : Option (Nat × Nat × Node V) :=
  s.nodes.zipIdx.findSome? fun (node, source) =>
    (s.edgesFrom node).zipIdx.findSome? fun (edge, number) =>
      if edge.target ∈ s.nodes then none else some (source, number, edge.target)

/-- Succeed exactly on well-formed structures; else report the first violation. -/
def validate (s : KripkeStructure V) : Except (GraphError V) Unit :=
  match firstRepetition? s.nodes with
  | some (first, second) => .error (.duplicateNode first second)
  | none =>
      match s.unlistedSource? with
      | some node => .error (.missingEdgeSource node)
      | none =>
          match s.unlistedTarget? with
          | some (source, edge, node) => .error (.missingEdgeTarget source edge node)
          | none =>
              match s.unlistedInitial? with
              | some node => .error (.missingInitialState node)
              | none => .ok ()

/-- No node is listed twice and nothing refers to an unlisted node. -/
structure WellFormed (s : KripkeStructure V) : Prop where
  nodup : s.nodes.Nodup
  source_mem : ∀ {node : Node V}, node ∈ s.edges.sources → node ∈ s.nodes
  target_mem : ∀ {node : Node V} {edge : Edge V},
    edge ∈ s.edgesFrom node → edge.target ∈ s.nodes
  initial_mem : ∀ {node : Node V}, node ∈ s.initialStates → node ∈ s.nodes

end KripkeStructure

end WeightedKripke
