import WeightedKripke.Structure.Layout

/-!
# Structures are kept by their layout

A layout sorts the entries of the map and the members of the set.  Both have no
repetition, so reading the layout back joins no entries and drops no member: the
result enumerates the same map and the same set in another order.
-/

namespace WeightedKripke

namespace EdgeMap

variable {V : Type} [PropertyValue V]

theorem appendEntry_of_not_mem {source : Node V} {edges : List (Edge V)}
    {entries : List (Node V × List (Edge V))} (h : source ∉ entries.map Prod.fst) :
    appendEntry source edges entries = entries ++ [(source, edges)] := by
  induction entries with
  | nil => rfl
  | cons entry rest ih =>
      rw [List.map_cons, List.mem_cons, not_or] at h
      have hne : ¬ entry.1 = source := fun heq => h.1 heq.symm
      rw [appendEntry, if_neg hne, ih h.2]
      rfl

end EdgeMap

namespace KripkeStructure

variable {V : Type} [PropertyValue V]

/-- Entries with new sources stand behind those that are there, in their order. -/
theorem entries_foldl_append {transitions : List (Transitions V)} {m : EdgeMap V}
    (h : (m.sources ++ transitions.map Transitions.source).Nodup) :
    (transitions.foldl (fun m entry => m.append entry.source entry.edges) m).entries =
      m.entries ++ transitions.map fun entry => (entry.source, entry.edges) := by
  induction transitions generalizing m with
  | nil => simp
  | cons entry rest ih =>
      have hfresh : entry.source ∉ m.sources := by
        intro hmem
        have hdisjoint := (List.nodup_append.1 h).2.2
        exact hdisjoint entry.source hmem entry.source List.mem_cons_self rfl
      have hentries : (m.append entry.source entry.edges).entries =
          m.entries ++ [(entry.source, entry.edges)] :=
        EdgeMap.appendEntry_of_not_mem hfresh
      have hsources : (m.append entry.source entry.edges).sources =
          m.sources ++ [entry.source] := by
        rw [EdgeMap.sources, hentries, List.map_append]
        rfl
      have hrest : ((m.append entry.source entry.edges).sources ++
          rest.map Transitions.source).Nodup := by
        rw [hsources, List.append_assoc]
        exact h
      rw [List.foldl_cons, ih hrest, hentries, List.append_assoc]
      rfl

theorem entries_collectEdges {transitions : List (Transitions V)}
    (h : (transitions.map Transitions.source).Nodup) :
    (collectEdges transitions).entries =
      transitions.map fun entry => (entry.source, entry.edges) :=
  entries_foldl_append h

theorem distinctAfter_of_nodup {seen nodes : List (Node V)} (h : (seen ++ nodes).Nodup) :
    distinctAfter seen nodes = seen ++ nodes := by
  induction nodes generalizing seen with
  | nil => simp [distinctAfter]
  | cons node rest ih =>
      have hfresh : node ∉ seen := by
        intro hmem
        exact (List.nodup_append.1 h).2.2 node hmem node List.mem_cons_self rfl
      have hrest : ((seen ++ [node]) ++ rest).Nodup := by
        rw [List.append_assoc]
        exact h
      rw [distinctAfter, if_neg hfresh, ih hrest, List.append_assoc]
      rfl

theorem distinct_of_nodup {nodes : List (Node V)} (h : nodes.Nodup) : distinct nodes = nodes :=
  distinctAfter_of_nodup h

/-- Reading a layout gives the structure back, up to the order of its map and its set. -/
theorem ofLayout_layout (s : KripkeStructure V) : (ofLayout s.layout).Equivalent s := by
  have hsorted := List.mergeSort_perm s.edges.entries
    fun a b => (displayOrder s.nodes a.1 b.1).isLE
  have hinitial := List.mergeSort_perm s.initialStates
    fun a b => (displayOrder s.nodes a b).isLE
  have hsources : (s.layout.transitions.map Transitions.source).Nodup := by
    rw [layout, List.map_map]
    exact (hsorted.map Prod.fst).nodup_iff.2 s.edges.nodup
  have hentries : (ofLayout s.layout).edges.entries =
      s.edges.entries.mergeSort fun a b => (displayOrder s.nodes a.1 b.1).isLE := by
    rw [ofLayout, entries_collectEdges hsources, layout, List.map_map]
    exact List.map_id _
  have hstates : (ofLayout s.layout).initialStates = s.layout.initialStates :=
    distinct_of_nodup (hinitial.nodup_iff.2 s.initialStates_nodup)
  refine ⟨rfl, ?_, ?_⟩
  · rw [hentries]
    exact hsorted
  · rw [hstates]
    exact hinitial

end KripkeStructure

end WeightedKripke
