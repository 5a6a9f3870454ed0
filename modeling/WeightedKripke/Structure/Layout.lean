import WeightedKripke.Structure.Basic

/-!
# Layouts

A layout writes a structure down as lists: the nodes, one entry of edges for each
source, and the initial nodes.  `KripkeStructure.layout` sorts entries and initial
nodes by their first position in the node list, unlisted nodes last and in node
order, so equal structures have equal layouts.  `KripkeStructure.ofLayout` reads
any layout: edges of a repeated source are joined in order and repeated initial
nodes count once.
-/

namespace WeightedKripke

structure Transitions (V : Type) where
  source : Node V
  edges : List (Edge V)
deriving DecidableEq

structure Layout (V : Type) where
  nodes : List (Node V)
  transitions : List (Transitions V)
  initialStates : List (Node V)
deriving DecidableEq

namespace KripkeStructure

variable {V : Type} [PropertyValue V]

/-- By first position in a node list, with unlisted nodes last, then by node order. -/
def displayOrder (nodes : List (Node V)) : Node V → Node V → Ordering :=
  compareLex (compareOn fun node => nodes.idxOf node) compare

def layout (s : KripkeStructure V) : Layout V where
  nodes := s.nodes
  transitions :=
    (s.edges.entries.mergeSort fun a b => (displayOrder s.nodes a.1 b.1).isLE).map
      fun entry => ⟨entry.1, entry.2⟩
  initialStates :=
    s.initialStates.mergeSort fun a b => (displayOrder s.nodes a b).isLE

def collectEdges (transitions : List (Transitions V)) : EdgeMap V :=
  transitions.foldl (fun m entry => m.append entry.source entry.edges) .empty

/-- The members of a list in order of first occurrence, behind those already seen. -/
def distinctAfter (seen : List (Node V)) : List (Node V) → List (Node V)
  | [] => seen
  | node :: rest =>
      if node ∈ seen then distinctAfter seen rest else distinctAfter (seen ++ [node]) rest

def distinct (nodes : List (Node V)) : List (Node V) :=
  distinctAfter [] nodes

theorem nodup_distinctAfter {seen nodes : List (Node V)} (h : seen.Nodup) :
    (distinctAfter seen nodes).Nodup := by
  induction nodes generalizing seen with
  | nil => exact h
  | cons node rest ih =>
      unfold distinctAfter
      split
      · exact ih h
      · rename_i hmem
        apply ih
        rw [List.nodup_append]
        refine ⟨h, by simp, ?_⟩
        intro a ha b hb hab
        rw [List.mem_singleton] at hb
        exact hmem (hb ▸ hab ▸ ha)

theorem nodup_distinct (nodes : List (Node V)) : (distinct nodes).Nodup :=
  nodup_distinctAfter List.nodup_nil

theorem mem_distinctAfter {node : Node V} {seen nodes : List (Node V)} :
    node ∈ distinctAfter seen nodes ↔ node ∈ seen ∨ node ∈ nodes := by
  induction nodes generalizing seen with
  | nil => simp [distinctAfter]
  | cons first rest ih =>
      unfold distinctAfter
      split
      · rename_i hmem
        rw [ih, List.mem_cons]
        constructor
        · rintro (h | h)
          · exact Or.inl h
          · exact Or.inr (Or.inr h)
        · rintro (h | h | h)
          · exact Or.inl h
          · exact Or.inl (h ▸ hmem)
          · exact Or.inr h
      · simp [ih, List.mem_append, or_assoc]

@[simp] theorem mem_distinct {node : Node V} {nodes : List (Node V)} :
    node ∈ distinct nodes ↔ node ∈ nodes := by
  simp [distinct, mem_distinctAfter]

def ofLayout (l : Layout V) : KripkeStructure V where
  nodes := l.nodes
  edges := collectEdges l.transitions
  initialStates := distinct l.initialStates
  initialStates_nodup := nodup_distinct l.initialStates

end KripkeStructure

end WeightedKripke
