import WeightedKripke.Proofs.Dot.Dependence

/-!
# Which structures are refused, and why

Drawing checks nodes, then initial nodes, then targets, and `FirstObstacle` says which
error it reports.  Validation checks the sources as well and looks at the initial nodes
last.  The two agree on repeated nodes, a well-formed structure is drawn, and a drawn
structure fails validation for nothing but a source that is not listed.  The entries of
such sources are left out, whatever their edges lead to.
-/

namespace WeightedKripke

namespace EdgeMap

variable {V : Type} [PropertyValue V]

def restrict (m : EdgeMap V) (nodes : List (Node V)) : EdgeMap V where
  entries := m.entries.filter fun entry => decide (entry.1 ∈ nodes)
  nodup := m.nodup.sublist (List.filter_sublist.map Prod.fst)

theorem get_restrict {m : EdgeMap V} {nodes : List (Node V)} {node : Node V}
    (h : node ∈ nodes) : (m.restrict nodes).get node = m.get node := by
  have hlookup : (m.restrict nodes).entries.lookup node = m.entries.lookup node := by
    apply Option.ext
    intro edges
    rw [lookup_eq_some_iff (m.restrict nodes).nodup, lookup_eq_some_iff m.nodup, restrict,
      List.mem_filter]
    simp [h]
  rw [get, get, hlookup]

end EdgeMap

namespace KripkeStructure

variable {V : Type} [PropertyValue V] {s : KripkeStructure V}

def pruned (s : KripkeStructure V) : KripkeStructure V :=
  { s with edges := s.edges.restrict s.nodes }

theorem drawnAlike_pruned (s : KripkeStructure V) : s.DrawnAlike s.pruned where
  nodes_eq := rfl
  edges_eq _ hnode := (EdgeMap.get_restrict hnode).symm
  initial_perm := List.Perm.refl _

/-- What a structure must have to be well formed, besides being drawn. -/
theorem wellFormed_iff_drawable :
    s.WellFormed ↔ s.Drawable ∧ ∀ node, node ∈ s.edges.sources → node ∈ s.nodes := by
  constructor
  · intro h
    exact ⟨h.drawable, fun _ hmem => h.source_mem hmem⟩
  · rintro ⟨hdrawable, hsources⟩
    exact {
      nodup := hdrawable.nodup
      source_mem := fun hmem => hsources _ hmem
      target_mem := fun hedge =>
        hdrawable.target_mem (hsources _ (mem_sources_of_mem_edgesFrom hedge)) hedge
      initial_mem := hdrawable.initial_mem }

/-- The obstacle to a drawing that is met first: nodes, then initial nodes, then targets. -/
inductive FirstObstacle (s : KripkeStructure V) : GraphError V → Prop where
  | duplicateNode {first second : Nat} (found : FirstRepetition s.nodes first second) :
      FirstObstacle s (.duplicateNode first second)
  | missingInitialState {node : Node V} (nodup : s.nodes.Nodup)
      (found : LeastUnlisted s.nodes s.initialStates node) :
      FirstObstacle s (.missingInitialState node)
  | missingEdgeTarget {source edge : Nat} {node : Node V} (nodup : s.nodes.Nodup)
      (initial : ∀ node, node ∈ s.initialStates → node ∈ s.nodes)
      (found : s.FirstDangling source edge node) :
      FirstObstacle s (.missingEdgeTarget source edge node)

/-- A structure that is drawn can only have sources that are not listed as a violation. -/
theorem FirstViolation.exists_source {error : GraphError V} (h : s.FirstViolation error)
    (hdrawable : s.Drawable) : ∃ node, error = .missingEdgeSource node := by
  cases h with
  | duplicateNode found => exact absurd hdrawable.nodup found.not_nodup
  | missingEdgeSource nodup found => exact ⟨_, rfl⟩
  | missingEdgeTarget nodup sources found =>
      have hlisted := found.dangles.not_all_listed
      exact absurd (fun _ hnode _ hedge => hdrawable.target_mem hnode hedge) hlisted
  | missingInitialState nodup sources targets found =>
      exact absurd (fun _ hmem => hdrawable.initial_mem hmem) found.not_all_listed

theorem firstObstacle_duplicateNode_iff {first second : Nat} :
    s.FirstObstacle (.duplicateNode first second) ↔
      s.FirstViolation (.duplicateNode first second) := by
  constructor
  · intro h
    cases h with
    | duplicateNode found => exact .duplicateNode found
  · intro h
    cases h with
    | duplicateNode found => exact .duplicateNode found

end KripkeStructure

namespace Dot

open KripkeStructure

variable {V : Type} [PropertyValue V] {s : KripkeStructure V}

theorem firstObstacle_of_statements {error : GraphError V} (h : statements s = .error error) :
    s.FirstObstacle error := by
  unfold statements at h
  cases hnodes : firstRepetition? s.nodes with
  | some pair =>
      rw [hnodes] at h
      cases h
      exact .duplicateNode (firstRepetition?_eq_some_iff.1 hnodes)
  | none =>
      have hnodup := firstRepetition?_eq_none_iff.1 hnodes
      cases hinitial : s.unlistedInitial? with
      | some node =>
          simp only [hnodes, hinitial] at h
          cases h
          exact .missingInitialState hnodup (unlistedInitial?_eq_some_iff.1 hinitial)
      | none =>
          have hlisted := unlistedInitial?_eq_none_iff.1 hinitial
          cases htargets : s.unlistedTarget? with
          | some found =>
              simp only [hnodes, hinitial, htargets] at h
              cases h
              exact .missingEdgeTarget hnodup hlisted (unlistedTarget?_eq_some_iff.1 htargets)
          | none =>
              simp only [hnodes, hinitial, htargets] at h
              cases h

theorem statements_of_firstObstacle {error : GraphError V} (h : s.FirstObstacle error) :
    statements s = .error error := by
  unfold statements
  cases h with
  | duplicateNode found =>
      rw [firstRepetition?_eq_some_iff.2 found]
  | missingInitialState nodup found =>
      rw [firstRepetition?_eq_none_iff.2 nodup, unlistedInitial?_eq_some_iff.2 found]
  | missingEdgeTarget nodup initial found =>
      rw [firstRepetition?_eq_none_iff.2 nodup, unlistedInitial?_eq_none_iff.2 initial,
        unlistedTarget?_eq_some_iff.2 found]

theorem render_eq_error_iff {options : Options} {error : GraphError V} :
    render s options = .error error ↔ s.FirstObstacle error := by
  constructor
  · intro h
    apply firstObstacle_of_statements
    rw [render, renderText] at h
    cases hbody : statements s with
    | error found =>
        rw [hbody] at h
        cases h
        rfl
    | ok body =>
        rw [hbody] at h
        cases h
  · intro h
    rw [render, renderText, statements_of_firstObstacle h]
    rfl

theorem exists_render_iff_drawable {options : Options} :
    (∃ text, render s options = .ok text) ↔ s.Drawable := by
  constructor
  · rintro ⟨text, h⟩
    rw [render, renderText] at h
    cases hbody : statements s with
    | error found =>
        rw [hbody] at h
        cases h
    | ok body => exact (drawable_of_statements hbody).1
  · intro h
    exact exists_render_of_drawable h options

/--
Drawing and validation differ in unlisted sources only.

A structure is drawn when it is drawable, else the first obstacle is reported; a
repeated node is reported as validation does.  To be well formed a drawn structure
lacks nothing but listed sources, and unlisted ones leave no trace in the drawing.
-/
theorem render_compared_with_validate (s : KripkeStructure V) (options : Options) :
    ((∃ text, render s options = .ok text) ↔ s.Drawable) ∧
      (∀ error, render s options = .error error ↔ s.FirstObstacle error) ∧
      (∀ first second, render s options = .error (.duplicateNode first second) ↔
        s.validate = .error (.duplicateNode first second)) ∧
      (s.validate = .ok () ↔ (∃ text, render s options = .ok text) ∧
        ∀ node, node ∈ s.edges.sources → node ∈ s.nodes) ∧
      (∀ text error, render s options = .ok text → s.validate = .error error →
        ∃ node, error = .missingEdgeSource node) ∧
      render s options = render s.pruned options := by
  refine ⟨exists_render_iff_drawable, fun _ => render_eq_error_iff, ?_, ?_, ?_, ?_⟩
  · intro first second
    rw [render_eq_error_iff, validate_eq_error_iff, firstObstacle_duplicateNode_iff]
  · rw [validate_eq_ok_iff, wellFormed_iff_drawable, exists_render_iff_drawable]
  · intro text error hrender hvalidate
    have hdrawable := exists_render_iff_drawable.1 ⟨text, hrender⟩
    exact (validate_eq_error_iff.1 hvalidate).exists_source hdrawable
  · exact render_eq s.drawnAlike_pruned options

/-- The lamp with one more edge, between two nodes that are not listed. -/
def strayLamp : KripkeStructure String where
  nodes := lamp.nodes
  edges :=
    { entries := (brokenLamp.lost, [⟨brokenLamp.broken, .zero⟩]) :: lamp.edges.entries
      nodup := firstRepetition?_eq_none_iff.1 rfl }
  initialStates := lamp.initialStates
  initialStates_nodup := lamp.initialStates_nodup

/-- The stray edge fails validation, for its source, and does not show in the drawing. -/
theorem render_strayLamp :
    ∃ text error, render strayLamp ⟨4, none⟩ = .ok text ∧
      strayLamp.validate = .error error ∧
      (∃ node, error = GraphError.missingEdgeSource node) ∧
      render lamp ⟨4, none⟩ = .ok text := by
  obtain ⟨_, _, _, _, hsource, hpruned⟩ := render_compared_with_validate strayLamp ⟨4, none⟩
  obtain ⟨text, hlamp⟩ := exists_render_of_drawable lamp_wellFormed.drawable ⟨4, none⟩
  have hequivalent : strayLamp.pruned.Equivalent lamp := by decide
  have htext : render strayLamp ⟨4, none⟩ = .ok text :=
    (hpruned.trans (render_eq hequivalent.drawnAlike _)).trans hlamp
  have hvalidate : strayLamp.validate = .error (.missingEdgeSource brokenLamp.lost) := rfl
  exact ⟨text, _, htext, hvalidate, hsource text _ htext hvalidate, hlamp⟩

end Dot

end WeightedKripke
