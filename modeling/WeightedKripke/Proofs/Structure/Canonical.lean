import Mathlib.Data.List.Nodup
import WeightedKripke.Proofs.Structure.Layout

/-!
# Equal structures have one layout

The display order is total and tells all nodes apart, also nodes that are not listed
and nodes that are listed twice.  Sorting by it leaves nothing of the order in which
the map and the set were enumerated, so two structures have the same layout exactly
when they are equivalent.
-/

namespace WeightedKripke

theorem pairwise_mergeSort_isLE {α κ : Type} (order : κ → κ → Ordering)
    [Std.TransCmp order] (key : α → κ) (items : List α) :
    (items.mergeSort fun a b => (order (key a) (key b)).isLE).Pairwise
      fun a b => (order (key a) (key b)).isLE = true := by
  apply List.pairwise_mergeSort
  · intro a b c hab hbc
    exact Std.TransCmp.isLE_trans hab hbc
  · intro a b
    by_cases hle : (order (key a) (key b)).isLE = true
    · simp [hle]
    · have hlt : order (key b) (key a) = .lt := Std.OrientedCmp.lt_of_not_isLE hle
      simp [hlt]

/-- Sorting by keys that are told apart puts each key before the next one. -/
theorem pairwise_mergeSort_lt {α κ : Type} (order : κ → κ → Ordering) [Std.TransCmp order]
    [Std.LawfulEqCmp order] (key : α → κ) {items : List α} (hkeys : (items.map key).Nodup) :
    ((items.mergeSort fun a b => (order (key a) (key b)).isLE).map key).Pairwise
      fun a b => order a b = .lt := by
  have hperm := List.mergeSort_perm items fun a b => (order (key a) (key b)).isLE
  have hdistinct := List.pairwise_map.1 ((hperm.map key).nodup_iff.2 hkeys)
  have hsorted := pairwise_mergeSort_isLE order key items
  rw [List.pairwise_map]
  refine List.Pairwise.imp₂ ?_ hsorted hdistinct
  intro a b hle hne
  obtain hlt | heq := Ordering.isLE_iff_eq_lt_or_eq_eq.1 hle
  · exact hlt
  · exact absurd (Std.LawfulEqCmp.eq_of_compare heq) hne

/-- Sorting by keys that are told apart forgets the order in which the items came. -/
theorem mergeSort_eq_of_perm {α κ : Type} (order : κ → κ → Ordering) [Std.TransCmp order]
    [Std.LawfulEqCmp order] (key : α → κ) {items others : List α} (h : items.Perm others)
    (hkeys : (items.map key).Nodup) :
    (items.mergeSort fun a b => (order (key a) (key b)).isLE) =
      others.mergeSort fun a b => (order (key a) (key b)).isLE := by
  let le : α → α → Bool := fun a b => (order (key a) (key b)).isLE
  have hitems := List.mergeSort_perm items le
  have hothers := List.mergeSort_perm others le
  have hunique : ∀ a b, a ∈ items.mergeSort le → b ∈ others.mergeSort le →
      le a b = true → le b a = true → a = b := by
    intro a b ha hb hab hba
    have hkey : key a = key b :=
      Std.LawfulEqCmp.eq_of_compare (Std.OrientedCmp.isLE_antisymm hab hba)
    have hb' : b ∈ items := h.mem_iff.2 (hothers.mem_iff.1 hb)
    exact List.inj_on_of_nodup_map hkeys (hitems.mem_iff.1 ha) hb' hkey
  exact List.Perm.eq_of_pairwise hunique (pairwise_mergeSort_isLE order key items)
    (pairwise_mergeSort_isLE order key others) (hitems.trans (h.trans hothers.symm))

namespace KripkeStructure

variable {V : Type} [PropertyValue V]

instance (nodes : List (Node V)) : Std.TransCmp (displayOrder nodes) := by
  unfold displayOrder
  infer_instance

instance (nodes : List (Node V)) : Std.LawfulEqCmp (displayOrder nodes) where
  compare_self {node} := by
    simp [displayOrder, compareLex, compareOn]
  eq_of_compare {a b} h := by
    rw [displayOrder, compareLex, Ordering.then_eq_eq] at h
    exact Std.LawfulEqCmp.eq_of_compare h.2

theorem Equivalent.layout_eq {s t : KripkeStructure V} (h : s.Equivalent t) :
    s.layout = t.layout := by
  obtain ⟨hnodes, hedges, hinitial⟩ := h
  have hentries := mergeSort_eq_of_perm (displayOrder s.nodes) Prod.fst hedges s.edges.nodup
  have hdistinct : (s.initialStates.map id).Nodup := by
    rw [List.map_id]
    exact s.initialStates_nodup
  have hstates := mergeSort_eq_of_perm (displayOrder s.nodes) id hinitial hdistinct
  simp only [id] at hstates
  rw [layout, layout, hentries, hstates, hnodes]

theorem equivalent_of_ofLayout_eq {s t : KripkeStructure V}
    (h : ofLayout s.layout = ofLayout t.layout) : s.Equivalent t := by
  have hs := s.ofLayout_layout
  rw [h] at hs
  exact hs.symm.trans t.ofLayout_layout

/-- A layout shows a structure and nothing of the order of its map and its set. -/
theorem layout_eq_iff {s t : KripkeStructure V} : s.layout = t.layout ↔ s.Equivalent t :=
  ⟨fun h => equivalent_of_ofLayout_eq (congrArg ofLayout h), Equivalent.layout_eq⟩

end KripkeStructure

end WeightedKripke
