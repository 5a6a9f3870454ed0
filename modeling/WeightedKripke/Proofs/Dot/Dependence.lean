import WeightedKripke.Proofs.Dot.Statement
import WeightedKripke.Proofs.Structure.Equivalence
import WeightedKripke.Proofs.Structure.Violation

/-!
# What a drawing depends on

A drawing shows the listed nodes, the edges that leave them, and which of them are
initial.  Structures that agree on this are drawn as the same text or refused with the
same error, in whatever order their map and their set are enumerated.  Equivalent
structures agree on it; so do structures that differ in unlisted sources only.
-/

namespace WeightedKripke

namespace KripkeStructure

variable {V : Type} [PropertyValue V]

structure DrawnAlike (s t : KripkeStructure V) : Prop where
  nodes_eq : s.nodes = t.nodes
  edges_eq : ∀ node, node ∈ s.nodes → s.edgesFrom node = t.edgesFrom node
  initial_perm : s.initialStates.Perm t.initialStates

theorem Equivalent.drawnAlike {s t : KripkeStructure V} (h : s.Equivalent t) :
    s.DrawnAlike t where
  nodes_eq := h.1
  edges_eq node _ := h.edgesFrom_eq node
  initial_perm := h.2.2

end KripkeStructure

namespace Dot

open KripkeStructure

variable {V : Type} [PropertyValue V] {s t : KripkeStructure V}

theorem drawing_eq (h : s.DrawnAlike t) : drawing s = drawing t := by
  have hnode : ∀ node id, nodeStatements s node id = nodeStatements t node id := by
    intro node id
    rw [nodeStatements, nodeStatements, isInitial_congr h.initial_perm]
  have hedges : ∀ entry, entry ∈ s.nodes.zipIdx →
      edgeStatements s entry.1 entry.2 = edgeStatements t entry.1 entry.2 := by
    intro entry hentry
    have hnode := List.fst_mem_of_mem_zipIdx hentry
    rw [edgeStatements, edgeStatements, h.edges_eq entry.1 hnode, h.nodes_eq]
  unfold drawing
  rw [List.flatMap_congr hedges, h.nodes_eq]
  simp only [hnode]

theorem statements_eq (h : s.DrawnAlike t) : statements s = statements t := by
  have hdrawing := drawing_eq h
  have hinitial := unlistedInitial?_congr h.nodes_eq h.initial_perm
  have htargets := unlistedTarget?_congr h.nodes_eq h.edges_eq
  unfold drawing at hdrawing
  unfold statements
  rw [hdrawing, hinitial, htargets, h.nodes_eq]

theorem render_eq (h : s.DrawnAlike t) (options : Options) :
    render s options = render t options := by
  rw [render, render, renderText, renderText, statements_eq h]

/--
The order in which the map and the set are enumerated shows neither in the outcome of
validation nor in that of drawing, be it a text or an error.
-/
theorem outcomes_eq_of_equivalent (h : s.Equivalent t) :
    s.validate = t.validate ∧ ∀ options, render s options = render t options :=
  ⟨h.validate_eq, render_eq h.drawnAlike⟩

/-- Of all violations of the broken lamp the same ones are reported in reverse order. -/
theorem outcomes_reversed_brokenLamp :
    brokenLamp.reversed.validate = .error (.missingEdgeSource brokenLamp.broken) ∧
      ∀ options, render brokenLamp.reversed options =
        .error (.missingInitialState brokenLamp.broken) := by
  obtain ⟨hvalidate, hrender⟩ := outcomes_eq_of_equivalent brokenLamp.reversed_equivalent
  refine ⟨hvalidate.trans rfl, ?_⟩
  intro options
  exact (hrender options).trans rfl

end Dot

end WeightedKripke
