import WeightedKripke.Node

/-!
# Kripke structures

A structure lists the nodes of a machine, maps nodes to their outgoing edges, and
has a set of initial nodes.  The position of a node in the list is its display
identity.

The map and the set are finite collections without an order of their own.  A value
holds one enumeration of each; `KripkeStructure.Equivalent` relates the values
that differ in these enumerations only, and is the equality of structures.
-/

namespace WeightedKripke

/-- Outgoing edges by source node: an enumeration with distinct sources. -/
structure EdgeMap (V : Type) where
  entries : List (Node V × List (Edge V))
  nodup : (entries.map Prod.fst).Nodup

namespace EdgeMap

variable {V : Type}

def empty : EdgeMap V := ⟨[], List.nodup_nil⟩

/-- The nodes that are a source, also those with an empty list of edges. -/
def sources (m : EdgeMap V) : List (Node V) :=
  m.entries.map Prod.fst

def edgeCount (m : EdgeMap V) : Nat :=
  m.entries.foldl (fun count entry => count + entry.2.length) 0

variable [PropertyValue V]

def get (m : EdgeMap V) (source : Node V) : List (Edge V) :=
  (m.entries.lookup source).getD []

/-- Put edges behind those of a source, which becomes the last one if it is new. -/
def appendEntry (source : Node V) (edges : List (Edge V)) :
    List (Node V × List (Edge V)) → List (Node V × List (Edge V))
  | [] => [(source, edges)]
  | entry :: rest =>
      if entry.1 = source then
        (entry.1, entry.2 ++ edges) :: rest
      else
        entry :: appendEntry source edges rest

theorem sources_appendEntry (source : Node V) (edges : List (Edge V))
    (entries : List (Node V × List (Edge V))) :
    (appendEntry source edges entries).map Prod.fst =
      if source ∈ entries.map Prod.fst then
        entries.map Prod.fst
      else
        entries.map Prod.fst ++ [source] := by
  induction entries with
  | nil => simp [appendEntry]
  | cons entry rest ih =>
      unfold appendEntry
      by_cases h : entry.1 = source
      · simp [h]
      · have hne : ¬ source = entry.1 := fun heq => h heq.symm
        simp only [if_neg h, List.map_cons, ih, List.mem_cons, hne, false_or]
        split <;> simp

def append (m : EdgeMap V) (source : Node V) (edges : List (Edge V)) : EdgeMap V where
  entries := appendEntry source edges m.entries
  nodup := by
    rw [sources_appendEntry]
    split
    · exact m.nodup
    · rename_i h
      rw [List.nodup_append]
      refine ⟨m.nodup, by simp, ?_⟩
      intro a ha b hb hab
      rw [List.mem_singleton] at hb
      exact h (hb ▸ hab ▸ ha)

theorem lookup_appendEntry (source node : Node V) (edges : List (Edge V))
    (entries : List (Node V × List (Edge V))) :
    ((appendEntry source edges entries).lookup node).getD [] =
      if node = source then
        (entries.lookup source).getD [] ++ edges
      else
        (entries.lookup node).getD [] := by
  induction entries with
  | nil =>
      by_cases h : node = source
      · simp [appendEntry, h]
      · have hne : (node == source) = false := by simpa using h
        simp [appendEntry, List.lookup_cons, h, hne]
  | cons entry rest ih =>
      obtain ⟨first, held⟩ := entry
      unfold appendEntry
      by_cases hsource : first = source
      · by_cases hnode : node = source
        · simp [hsource, hnode]
        · have hne : (node == source) = false := by simpa using hnode
          simp [hsource, hnode, List.lookup_cons, hne]
      · by_cases hnode : node = first
        · simp [hsource, hnode]
        · have hne : (node == first) = false := by simpa using hnode
          have hne' : (source == first) = false := by
            simpa using fun h => hsource (Eq.symm h)
          simp only [if_neg hsource, List.lookup_cons, hne, hne', ih]

theorem get_append (m : EdgeMap V) (source node : Node V) (edges : List (Edge V)) :
    (m.append source edges).get node =
      if node = source then m.get source ++ edges else m.get node :=
  lookup_appendEntry source node edges m.entries

end EdgeMap

/-- Every reachable node of a machine, the transitions, and the nodes it can start in. -/
structure KripkeStructure (V : Type) where
  nodes : List (Node V)
  edges : EdgeMap V
  initialStates : List (Node V)
  initialStates_nodup : initialStates.Nodup

namespace KripkeStructure

variable {V : Type}

/-- Equality of structures: the same node list, edge map and set of initial nodes. -/
def Equivalent (s t : KripkeStructure V) : Prop :=
  s.nodes = t.nodes ∧ s.edges.entries.Perm t.edges.entries ∧
    s.initialStates.Perm t.initialStates

namespace Equivalent

theorem refl (s : KripkeStructure V) : Equivalent s s :=
  ⟨rfl, List.Perm.refl _, List.Perm.refl _⟩

theorem symm {s t : KripkeStructure V} (h : Equivalent s t) : Equivalent t s :=
  ⟨h.1.symm, h.2.1.symm, h.2.2.symm⟩

theorem trans {s t u : KripkeStructure V} (hst : Equivalent s t) (htu : Equivalent t u) :
    Equivalent s u :=
  ⟨hst.1.trans htu.1, hst.2.1.trans htu.2.1, hst.2.2.trans htu.2.2⟩

end Equivalent

instance : Setoid (KripkeStructure V) where
  r := Equivalent
  iseqv := ⟨Equivalent.refl, Equivalent.symm, Equivalent.trans⟩

def edgeCount (s : KripkeStructure V) : Nat :=
  s.edges.edgeCount

variable [PropertyValue V]

instance (s t : KripkeStructure V) : Decidable (Equivalent s t) :=
  inferInstanceAs (Decidable (_ ∧ _ ∧ _))

def edgesFrom (s : KripkeStructure V) (node : Node V) : List (Edge V) :=
  s.edges.get node

def isInitial (s : KripkeStructure V) (node : Node V) : Bool :=
  decide (node ∈ s.initialStates)

/-- Display identity of a node: its first position in the node list. -/
def indexOf? (s : KripkeStructure V) (node : Node V) : Option Nat :=
  s.nodes.idxOf? node

end KripkeStructure

end WeightedKripke
