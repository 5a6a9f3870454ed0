import WeightedKripke.Cost
import WeightedKripke.Name
import WeightedKripke.Property
import WeightedKripke.SortedMap

/-!
# Nodes and edges

A node is a reachable state of a machine: the phase it was seen in, the current
and the next machine state, whether the entry action runs, and the values of named
properties.  Nodes are plain values with a total order; an edge holds its target
by value.
-/

namespace WeightedKripke

/-- When a node was captured: before the state executes or after it. -/
inductive Phase where
  /-- Inputs are sampled and the state is about to execute. -/
  | read
  /-- The state has executed and is about to write its outputs. -/
  | write
deriving DecidableEq

namespace Phase

def all : List Phase := [read, write]

def rank : Phase → Nat
  | read => 0
  | write => 1

def name : Phase → String
  | read => "read"
  | write => "write"

def title : Phase → String
  | read => "Read"
  | write => "Write"

instance : ToString Phase := ⟨title⟩

theorem rank_injective {a b : Phase} (h : a.rank = b.rank) : a = b := by
  cases a <;> cases b <;> simp_all [rank]

end Phase

@[ext] structure Node (V : Type) where
  phase : Phase
  currentState : Name
  /-- Whether the entry action of the current state runs. -/
  executeOnEntry : Bool
  nextState : Name
  properties : SortedMap Name V
deriving DecidableEq

@[ext] structure Edge (V : Type) where
  target : Node V
  cost : Cost
deriving DecidableEq

namespace Node

variable {V : Type} [PropertyValue V]

protected def compare : Node V → Node V → Ordering :=
  compareLex (compareOn fun node => node.phase.rank)
    (compareLex (compareOn currentState)
      (compareLex (compareOn executeOnEntry)
        (compareLex (compareOn nextState) (compareOn properties))))

instance : LawfulBEq (Node V) := inferInstance

instance : Ord (Node V) := ⟨Node.compare⟩

instance : Std.TransOrd (Node V) := by
  show Std.TransCmp (Node.compare (V := V))
  unfold Node.compare
  infer_instance

instance : Std.LawfulEqOrd (Node V) where
  eq_of_compare {a b} h := by
    have h : Node.compare a b = .eq := h
    simp only [Node.compare, compareLex, compareOn, Ordering.then_eq_eq,
      Std.LawfulEqCmp.compare_eq_iff_eq] at h
    exact Node.ext (Phase.rank_injective h.1) h.2.1 h.2.2.1 h.2.2.2.1 h.2.2.2.2

/-- One-line summary, used where an error has to name a node. -/
def summary (node : Node V) : String :=
  node.phase.title ++ " " ++ node.currentState.text ++ " (next: " ++
    node.nextState.text ++ ", " ++
    String.ofList (Decimal.natText node.properties.size) ++ " properties)"

end Node

end WeightedKripke
