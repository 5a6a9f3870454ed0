import Mathlib.Data.List.Basic
import WeightedKripke.Structure.Validation

/-!
# Observations do not depend on the enumeration

Equivalent structures enumerate one map and one set in different orders.  Edges of
a node, membership of the set and the smallest member of a collection do not show
the order, so neither does validation.
-/

namespace WeightedKripke

theorem least?_perm {α : Type} [Ord α] [Std.TransOrd α] [Std.LawfulEqOrd α]
    {members others : List α} (h : members.Perm others) : least? members = least? others := by
  cases hleft : least? members with
  | none =>
      rw [least?_eq_none_iff] at hleft
      subst hleft
      rw [h.nil_eq.symm]
      rfl
  | some a =>
      cases hright : least? others with
      | none =>
          rw [least?_eq_none_iff] at hright
          subst hright
          rw [h.eq_nil] at hleft
          cases hleft
      | some b =>
          have hle := least?_isLE hleft (h.mem_iff.2 (least?_mem hright))
          have hge := least?_isLE hright (h.mem_iff.1 (least?_mem hleft))
          have heq : a = b :=
            Std.LawfulEqOrd.eq_of_compare (Std.OrientedCmp.isLE_antisymm hle hge)
          rw [heq]

namespace EdgeMap

variable {V : Type} [PropertyValue V]

theorem lookup_eq_some_iff {entries : List (Node V × List (Edge V))}
    (hnodup : (entries.map Prod.fst).Nodup) {node : Node V} {edges : List (Edge V)} :
    entries.lookup node = some edges ↔ (node, edges) ∈ entries := by
  induction entries with
  | nil => simp
  | cons entry rest ih =>
      obtain ⟨source, found⟩ := entry
      rw [List.map_cons, List.nodup_cons] at hnodup
      rw [List.lookup_cons, List.mem_cons, Prod.mk.injEq]
      by_cases h : node = source
      · -- The source stands in front, so no later entry can have it.
        subst h
        have habsent : (node, edges) ∉ rest := fun hmem =>
          hnodup.1 (List.mem_map.2 ⟨(node, edges), hmem, rfl⟩)
        simp [habsent, eq_comm]
      · have hne : (node == source) = false := by simpa using h
        rw [hne]
        simp [h, ih hnodup.2]

theorem get_congr {m n : EdgeMap V} (h : m.entries.Perm n.entries) (node : Node V) :
    m.get node = n.get node := by
  have hlookup : m.entries.lookup node = n.entries.lookup node := by
    apply Option.ext
    intro edges
    rw [lookup_eq_some_iff m.nodup, lookup_eq_some_iff n.nodup, h.mem_iff]
  rw [get, get, hlookup]

end EdgeMap

namespace KripkeStructure

section Observations

variable {V : Type} [PropertyValue V] {s t : KripkeStructure V}

theorem isInitial_congr (h : s.initialStates.Perm t.initialStates) (node : Node V) :
    s.isInitial node = t.isInitial node := by
  simp [isInitial, h.mem_iff]

theorem unlistedInitial?_congr (hnodes : s.nodes = t.nodes)
    (h : s.initialStates.Perm t.initialStates) : s.unlistedInitial? = t.unlistedInitial? := by
  unfold unlistedInitial?
  rw [hnodes]
  exact least?_perm (h.filter _)

/-- The search for unlisted targets looks at the edges of listed nodes only. -/
theorem unlistedTarget?_congr (hnodes : s.nodes = t.nodes)
    (h : ∀ node, node ∈ s.nodes → s.edgesFrom node = t.edgesFrom node) :
    s.unlistedTarget? = t.unlistedTarget? := by
  unfold unlistedTarget?
  rw [← hnodes, ← List.head?_filterMap, ← List.head?_filterMap]
  apply congrArg List.head?
  apply List.filterMap_congr
  rintro ⟨node, source⟩ hentry
  simp only [h node (List.fst_mem_of_mem_zipIdx hentry)]

end Observations

namespace Equivalent

variable {V : Type} {s t : KripkeStructure V}

theorem sources_perm (h : s.Equivalent t) : s.edges.sources.Perm t.edges.sources :=
  h.2.1.map Prod.fst

variable [PropertyValue V]

theorem edgesFrom_eq (h : s.Equivalent t) (node : Node V) :
    s.edgesFrom node = t.edgesFrom node :=
  EdgeMap.get_congr h.2.1 node

theorem unlistedSource?_eq (h : s.Equivalent t) : s.unlistedSource? = t.unlistedSource? := by
  unfold unlistedSource?
  rw [h.1]
  exact least?_perm (h.sources_perm.filter _)

theorem validate_eq (h : s.Equivalent t) : s.validate = t.validate := by
  have htargets := unlistedTarget?_congr h.1 fun node _ => h.edgesFrom_eq node
  have hinitial := unlistedInitial?_congr h.1 h.2.2
  unfold validate
  rw [h.1, h.unlistedSource?_eq, htargets, hinitial]

end Equivalent

def reversed {V : Type} (s : KripkeStructure V) : KripkeStructure V where
  nodes := s.nodes
  edges :=
    { entries := s.edges.entries.reverse
      nodup := ((List.reverse_perm _).map Prod.fst).nodup_iff.2 s.edges.nodup }
  initialStates := s.initialStates.reverse
  initialStates_nodup := (List.reverse_perm _).nodup_iff.2 s.initialStates_nodup

theorem reversed_equivalent {V : Type} (s : KripkeStructure V) : s.reversed.Equivalent s :=
  ⟨rfl, List.reverse_perm _, List.reverse_perm _⟩

end KripkeStructure

end WeightedKripke
