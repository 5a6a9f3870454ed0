import WeightedKripke.Dot.Render
import WeightedKripke.Proofs.Structure.Validity

/-!
# Which structures are drawn, and as what

`Drawable` is what the drawing of a structure relies on: no repeated node, and no
reference from a listed node or from the initial nodes to an unlisted one.  Sources
that are not listed do not matter.  A drawable structure is drawn as `drawing`, any
other one is refused.
-/

namespace WeightedKripke

namespace KripkeStructure

variable {V : Type} [PropertyValue V]

/-- No node is listed twice, and what is drawn refers to listed nodes. -/
structure Drawable (s : KripkeStructure V) : Prop where
  nodup : s.nodes.Nodup
  initial_mem : ∀ {node : Node V}, node ∈ s.initialStates → node ∈ s.nodes
  target_mem : ∀ {node : Node V} {edge : Edge V}, node ∈ s.nodes →
    edge ∈ s.edgesFrom node → edge.target ∈ s.nodes

theorem WellFormed.drawable {s : KripkeStructure V} (h : s.WellFormed) : s.Drawable where
  nodup := h.nodup
  initial_mem := h.initial_mem
  target_mem _ hedge := h.target_mem hedge

end KripkeStructure

namespace Dot

open KripkeStructure

variable {V : Type} [PropertyValue V] {s : KripkeStructure V}

def drawing (s : KripkeStructure V) : List Statement :=
  s.nodes.zipIdx.flatMap (fun (node, id) => nodeStatements s node id) ++
    s.nodes.zipIdx.flatMap (fun (node, id) => edgeStatements s node id)

theorem statements_of_drawable (h : s.Drawable) : statements s = .ok (drawing s) := by
  have hnodes := firstRepetition?_eq_none_iff.2 h.nodup
  have hinitial := unlistedInitial?_eq_none_iff.2 fun _ hmem => h.initial_mem hmem
  have htargets := unlistedTarget?_eq_none_iff.2 fun _ hnode _ hedge =>
    h.target_mem hnode hedge
  simp [statements, drawing, hnodes, hinitial, htargets]

theorem exists_render_of_drawable (h : s.Drawable) (options : Options) :
    ∃ text, render s options = .ok text := by
  rw [render, renderText, statements_of_drawable h]
  exact ⟨_, rfl⟩

theorem drawable_of_statements {body : List Statement} (h : statements s = .ok body) :
    s.Drawable ∧ body = drawing s := by
  have hdrawable : s.Drawable := by
    unfold statements at h
    cases hnodes : firstRepetition? s.nodes with
    | some pair => simp [hnodes] at h
    | none =>
        cases hinitial : s.unlistedInitial? with
        | some node => simp [hnodes, hinitial] at h
        | none =>
            cases htargets : s.unlistedTarget? with
            | some found => simp [hnodes, hinitial, htargets] at h
            | none =>
                exact {
                  nodup := firstRepetition?_eq_none_iff.1 hnodes
                  initial_mem := fun hmem => unlistedInitial?_eq_none_iff.1 hinitial _ hmem
                  target_mem := fun hnode hedge =>
                    unlistedTarget?_eq_none_iff.1 htargets _ hnode _ hedge }
  rw [statements_of_drawable hdrawable] at h
  exact ⟨hdrawable, (Except.ok.inj h).symm⟩

end Dot

end WeightedKripke
