import WeightedKripke.Proofs.Structure.Canonical

/-!
# The order in which a structure is written

A written layout is canonical: each source and each initial node comes before the next
one in display order, so none of them is repeated.  Reading a layout and writing what
was read changes it exactly when it is not canonical.
-/

namespace WeightedKripke

variable {V : Type} [PropertyValue V]

/--
The display order of two nodes.

Listed nodes come in the order of their first positions; nodes that are not listed
come behind them, in node order.
-/
inductive ShownBefore (nodes : List (Node V)) (a b : Node V) : Prop where
  | positions {i j : Nat} (first : nodes.idxOf? a = some i) (second : nodes.idxOf? b = some j)
      (lt : i < j) : ShownBefore nodes a b
  | listed (first : a ∈ nodes) (second : b ∉ nodes) : ShownBefore nodes a b
  | unlisted (first : a ∉ nodes) (second : b ∉ nodes) (lt : compare a b = .lt) :
      ShownBefore nodes a b

/-- Sources and initial nodes are written in display order, each of them once. -/
structure Layout.Canonical (l : Layout V) : Prop where
  sources : (l.transitions.map Transitions.source).Pairwise (ShownBefore l.nodes)
  sources_nodup : (l.transitions.map Transitions.source).Nodup
  initialStates : l.initialStates.Pairwise (ShownBefore l.nodes)
  initialStates_nodup : l.initialStates.Nodup

namespace KripkeStructure

variable {nodes : List (Node V)} {a b : Node V}

theorem displayOrder_eq_lt_iff :
    displayOrder nodes a b = .lt ↔
      (nodes.idxOf? a).getD nodes.length < (nodes.idxOf? b).getD nodes.length ∨
        (nodes.idxOf? a).getD nodes.length = (nodes.idxOf? b).getD nodes.length ∧
          compare a b = .lt := by
  rw [displayOrder, compareLex, Ordering.then_eq_lt, compareOn, Nat.compare_eq_lt,
    Nat.compare_eq_eq, List.idxOf_eq_getD_idxOf? a, List.idxOf_eq_getD_idxOf? b]

theorem shownBefore_of_displayOrder (h : displayOrder nodes a b = .lt) :
    ShownBefore nodes a b := by
  rw [displayOrder_eq_lt_iff] at h
  cases ha : nodes.idxOf? a with
  | some i =>
      obtain ⟨hi, hmember, _⟩ := List.idxOf?_eq_some_iff.1 ha
      cases hb : nodes.idxOf? b with
      | some j =>
          obtain ⟨_, hother, _⟩ := List.idxOf?_eq_some_iff.1 hb
          rw [ha, hb] at h
          obtain hlt | ⟨heq, hlt⟩ := h
          · exact .positions ha hb hlt
          · -- One position holds one node, and a node is not before itself.
            have heq : i = j := heq
            subst heq
            simp [← hmember, ← hother] at hlt
      | none => exact .listed (hmember ▸ List.getElem_mem hi) (List.idxOf?_eq_none_iff.1 hb)
  | none =>
      have hunlisted := List.idxOf?_eq_none_iff.1 ha
      cases hb : nodes.idxOf? b with
      | some j =>
          obtain ⟨hj, _⟩ := List.idxOf?_eq_some_iff.1 hb
          simp only [ha, hb, Option.getD_none, Option.getD_some] at h
          omega
      | none =>
          simp only [ha, hb, Option.getD_none] at h
          obtain hlt | ⟨_, hlt⟩ := h
          · exact absurd hlt (Nat.lt_irrefl _)
          · exact .unlisted hunlisted (List.idxOf?_eq_none_iff.1 hb) hlt

theorem displayOrder_of_shownBefore (h : ShownBefore nodes a b) :
    displayOrder nodes a b = .lt := by
  rw [displayOrder_eq_lt_iff]
  cases h with
  | positions first second lt =>
      rw [first, second]
      exact Or.inl lt
  | listed first second =>
      have hlt := List.idxOf_lt_length_iff.2 first
      rw [List.idxOf?_eq_none_iff.2 second, ← List.idxOf_eq_getD_idxOf?]
      exact Or.inl hlt
  | unlisted first second lt =>
      rw [List.idxOf?_eq_none_iff.2 first, List.idxOf?_eq_none_iff.2 second]
      exact Or.inr ⟨rfl, lt⟩

theorem isLE_of_shownBefore (h : ShownBefore nodes a b) : (displayOrder nodes a b).isLE :=
  Ordering.isLE_of_eq_lt (displayOrder_of_shownBefore h)

theorem not_shownBefore_self : ¬ ShownBefore nodes a a := by
  intro h
  have hself : displayOrder nodes a a = .eq := Std.ReflCmp.compare_self
  rw [displayOrder_of_shownBefore h] at hself
  cases hself

theorem nodup_of_shownBefore {members : List (Node V)}
    (h : members.Pairwise (ShownBefore nodes)) : members.Nodup := by
  refine h.imp ?_
  rintro a b hab rfl
  exact not_shownBefore_self hab

theorem pairwise_shownBefore {α : Type} (nodes : List (Node V)) (key : α → Node V)
    {items : List α} (h : (items.map key).Nodup) :
    ((items.mergeSort fun a b => (displayOrder nodes (key a) (key b)).isLE).map key).Pairwise
      (ShownBefore nodes) :=
  (pairwise_mergeSort_lt (displayOrder nodes) key h).imp shownBefore_of_displayOrder

theorem canonical_layout (s : KripkeStructure V) : s.layout.Canonical := by
  have hsources : (s.layout.transitions.map Transitions.source).Pairwise
      (ShownBefore s.nodes) := by
    rw [layout, List.map_map]
    exact pairwise_shownBefore s.nodes Prod.fst s.edges.nodup
  have hstates : s.layout.initialStates.Pairwise (ShownBefore s.nodes) := by
    have hdistinct : (s.initialStates.map id).Nodup := by
      rw [List.map_id]
      exact s.initialStates_nodup
    have h := pairwise_shownBefore s.nodes id hdistinct
    rwa [List.map_id] at h
  exact ⟨hsources, nodup_of_shownBefore hsources, hstates, nodup_of_shownBefore hstates⟩

theorem mergeSort_of_shownBefore {α : Type} (key : α → Node V) {items : List α}
    (h : (items.map key).Pairwise (ShownBefore nodes)) :
    (items.mergeSort fun a b => (displayOrder nodes (key a) (key b)).isLE) = items :=
  List.mergeSort_of_pairwise ((List.pairwise_map.1 h).imp isLE_of_shownBefore)

theorem layout_ofLayout_of_canonical {l : Layout V} (h : l.Canonical) :
    (ofLayout l).layout = l := by
  have hnodes : (ofLayout l).nodes = l.nodes := rfl
  have hentries : (ofLayout l).edges.entries =
      l.transitions.map fun entry => (entry.source, entry.edges) :=
    entries_collectEdges h.sources_nodup
  have hsources : ((ofLayout l).edges.entries.map Prod.fst).Pairwise
      (ShownBefore l.nodes) := by
    rw [hentries, List.map_map]
    exact h.sources
  have htransitions := mergeSort_of_shownBefore Prod.fst hsources
  have hmembers : (l.initialStates.map id).Pairwise (ShownBefore l.nodes) := by
    rw [List.map_id]
    exact h.initialStates
  have hstates := mergeSort_of_shownBefore id hmembers
  simp only [id] at hstates
  have hinitial : (ofLayout l).initialStates = l.initialStates :=
    distinct_of_nodup h.initialStates_nodup
  have hback : (l.transitions.map fun entry =>
      (⟨entry.source, entry.edges⟩ : Transitions V)) = l.transitions :=
    List.map_id _
  rw [layout, hnodes, htransitions, hinitial, hstates, hentries, List.map_map]
  exact congrArg (fun transitions => Layout.mk l.nodes transitions l.initialStates) hback

/-- Reading a layout and writing what was read keeps the canonical layouts, and no others. -/
theorem layout_ofLayout_eq_iff {l : Layout V} : (ofLayout l).layout = l ↔ l.Canonical := by
  constructor
  · intro h
    rw [← h]
    exact canonical_layout _
  · exact layout_ofLayout_of_canonical

end KripkeStructure

end WeightedKripke
