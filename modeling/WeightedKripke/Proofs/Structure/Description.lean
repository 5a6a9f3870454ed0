import Mathlib.Algebra.GroupWithZero.Nat
import Mathlib.Data.List.Flatten
import WeightedKripke.Proofs.Structure.Canonical
import WeightedKripke.Proofs.Structure.Equivalence

/-!
# What a layout says

`Layout.Describes` relates a layout to the structures that it describes: the entries of
one source add up in their order, whatever stands between them, entries without edges
still make their node a source, and a repeated initial node is one initial node.  The
structure that is read from a layout is described by it, and so is every structure by
the layout that is written for it.  Two structures that one layout describes are
equivalent, so nothing that a structure holds is left open.
-/

namespace WeightedKripke

variable {V : Type}

namespace EdgeMap

theorem edgeCount_eq_sum (m : EdgeMap V) :
    m.edgeCount = (m.entries.map fun entry => entry.2.length).sum := by
  have hfold : ∀ (entries : List (Node V × List (Edge V))) (count : Nat),
      entries.foldl (fun count entry => count + entry.2.length) count =
        count + (entries.map fun entry => entry.2.length).sum := by
    intro entries
    induction entries with
    | nil => simp
    | cons entry rest ih =>
        intro count
        rw [List.foldl_cons, ih, List.map_cons, List.sum_cons, Nat.add_assoc]
  rw [edgeCount, hfold, Nat.zero_add]

variable [PropertyValue V]

theorem mem_sources_append {m : EdgeMap V} {source node : Node V} {edges : List (Edge V)} :
    node ∈ (m.append source edges).sources ↔ node ∈ m.sources ∨ source = node := by
  rw [sources, append, sources_appendEntry]
  split
  · rename_i hmem
    constructor
    · exact Or.inl
    · rintro (h | h)
      · exact h
      · exact h ▸ hmem
  · simp [sources, eq_comm]

theorem sum_length_appendEntry (source : Node V) (edges : List (Edge V))
    (entries : List (Node V × List (Edge V))) :
    ((appendEntry source edges entries).map fun entry => entry.2.length).sum =
      (entries.map fun entry => entry.2.length).sum + edges.length := by
  induction entries with
  | nil => simp [appendEntry]
  | cons entry rest ih =>
      unfold appendEntry
      split
      · simp only [List.map_cons, List.sum_cons, List.length_append]
        omega
      · simp only [List.map_cons, List.sum_cons, ih]
        omega

theorem edgeCount_append (m : EdgeMap V) (source : Node V) (edges : List (Edge V)) :
    (m.append source edges).edgeCount = m.edgeCount + edges.length := by
  rw [edgeCount_eq_sum, edgeCount_eq_sum]
  exact sum_length_appendEntry source edges m.entries

theorem mem_entries_iff {m : EdgeMap V} {entry : Node V × List (Edge V)} :
    entry ∈ m.entries ↔ entry.1 ∈ m.sources ∧ m.get entry.1 = entry.2 := by
  constructor
  · intro hentry
    have hlookup := (lookup_eq_some_iff m.nodup).2 hentry
    refine ⟨List.mem_map_of_mem hentry, ?_⟩
    rw [get, hlookup, Option.getD_some]
  · rintro ⟨hsource, hget⟩
    obtain ⟨held, hheld, hfirst⟩ := List.mem_map.1 hsource
    have hlookup := (lookup_eq_some_iff m.nodup).2 hheld
    rw [get, ← hfirst, hlookup, Option.getD_some] at hget
    have heq : held = entry := Prod.ext hfirst hget
    exact heq ▸ hheld

end EdgeMap

/-- The layout tells what the structure holds, neither more nor less. -/
structure Layout.Describes [PropertyValue V] (l : Layout V) (s : KripkeStructure V) : Prop where
  nodes_eq : s.nodes = l.nodes
  mem_sources_iff : ∀ node, node ∈ s.edges.sources ↔
    ∃ entry, entry ∈ l.transitions ∧ entry.source = node
  edgesFrom_eq : ∀ node, s.edgesFrom node =
    (l.transitions.filter fun entry => entry.source = node).flatMap Transitions.edges
  edgeCount_eq : s.edgeCount = (l.transitions.map fun entry => entry.edges.length).sum
  mem_initialStates_iff : ∀ node, node ∈ s.initialStates ↔ node ∈ l.initialStates

namespace KripkeStructure

variable [PropertyValue V]

section Collect

variable (transitions : List (Transitions V)) (m : EdgeMap V) {node : Node V}

theorem mem_sources_foldl_append :
    node ∈ (transitions.foldl (fun m entry => m.append entry.source entry.edges) m).sources ↔
      node ∈ m.sources ∨ ∃ entry, entry ∈ transitions ∧ entry.source = node := by
  induction transitions generalizing m with
  | nil => simp
  | cons entry rest ih =>
      rw [List.foldl_cons, ih, EdgeMap.mem_sources_append, or_assoc]
      simp

theorem get_foldl_append :
    (transitions.foldl (fun m entry => m.append entry.source entry.edges) m).get node =
      m.get node ++
        (transitions.filter fun entry => entry.source = node).flatMap Transitions.edges := by
  induction transitions generalizing m with
  | nil => simp
  | cons entry rest ih =>
      rw [List.foldl_cons, ih, EdgeMap.get_append]
      by_cases h : entry.source = node
      · simp [h]
      · have hne : ¬ node = entry.source := fun heq => h heq.symm
        simp [h, hne]

theorem edgeCount_foldl_append :
    (transitions.foldl (fun m entry => m.append entry.source entry.edges) m).edgeCount =
      m.edgeCount + (transitions.map fun entry => entry.edges.length).sum := by
  induction transitions generalizing m with
  | nil => simp
  | cons entry rest ih =>
      rw [List.foldl_cons, ih, EdgeMap.edgeCount_append, List.map_cons, List.sum_cons,
        Nat.add_assoc]

end Collect

theorem describes_ofLayout (l : Layout V) : l.Describes (ofLayout l) where
  nodes_eq := rfl
  mem_sources_iff node := by
    have h : node ∈ (ofLayout l).edges.sources ↔ _ :=
      mem_sources_foldl_append l.transitions .empty
    exact h.trans (by simp [EdgeMap.sources, EdgeMap.empty])
  edgesFrom_eq _ := get_foldl_append l.transitions .empty
  edgeCount_eq := by
    have h := edgeCount_foldl_append l.transitions .empty
    exact h.trans (by simp [EdgeMap.edgeCount, EdgeMap.empty])
  mem_initialStates_iff _ := mem_distinct

/-- A layout describes a structure without the order of its map and its set. -/
theorem Equivalent.describes {l : Layout V} {s t : KripkeStructure V} (h : s.Equivalent t)
    (hs : l.Describes s) : l.Describes t where
  nodes_eq := h.1.symm.trans hs.nodes_eq
  mem_sources_iff node := h.sources_perm.mem_iff.symm.trans (hs.mem_sources_iff node)
  edgesFrom_eq node := (h.edgesFrom_eq node).symm.trans (hs.edgesFrom_eq node)
  edgeCount_eq := by
    rw [← hs.edgeCount_eq, edgeCount, edgeCount, EdgeMap.edgeCount_eq_sum,
      EdgeMap.edgeCount_eq_sum]
    exact (h.2.1.map fun entry => entry.2.length).sum_nat.symm
  mem_initialStates_iff node := h.2.2.mem_iff.symm.trans (hs.mem_initialStates_iff node)

/-- What a layout describes is one structure. -/
theorem equivalent_of_describes {l : Layout V} {s t : KripkeStructure V}
    (hs : l.Describes s) (ht : l.Describes t) : s.Equivalent t := by
  refine ⟨hs.nodes_eq.trans ht.nodes_eq.symm, ?_, ?_⟩
  · have hedges := List.perm_ext_iff_of_nodup (List.Nodup.of_map _ s.edges.nodup)
      (List.Nodup.of_map _ t.edges.nodup)
    refine hedges.2 fun entry => ?_
    have hget : s.edges.get entry.1 = t.edges.get entry.1 :=
      (hs.edgesFrom_eq entry.1).trans (ht.edgesFrom_eq entry.1).symm
    rw [EdgeMap.mem_entries_iff, EdgeMap.mem_entries_iff, hs.mem_sources_iff,
      ht.mem_sources_iff, hget]
  · have hinitial := List.perm_ext_iff_of_nodup s.initialStates_nodup t.initialStates_nodup
    refine hinitial.2 fun node => ?_
    rw [hs.mem_initialStates_iff, ht.mem_initialStates_iff]

theorem describes_layout (s : KripkeStructure V) : s.layout.Describes s :=
  s.ofLayout_layout.describes (describes_ofLayout s.layout)

end KripkeStructure

end WeightedKripke
