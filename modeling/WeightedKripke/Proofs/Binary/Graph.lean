import WeightedKripke.Binary.Graph
import WeightedKripke.Proofs.Binary.Codec
import WeightedKripke.Proofs.SortedMap

/-!
# Binary forms of nodes and structures are read back

A structure is written as its layout, so what is read back is the structure that
the layout describes.  A layout fits the memory when its structure does: it has the
same members in another order.
-/

namespace WeightedKripke

open Binary

theorem Phase.all_rank (phase : Phase) : Phase.all[phase.rank]? = some phase := by
  cases phase <;> rfl

instance : Memory Phase := ⟨fun _ => True⟩

instance : LawfulBinaryCodec Phase where
  get_append phase _ tail :=
    getAlternative_append Phase.all_rank (by rintro (_ | _) <;> decide) phase tail

variable {V : Type} [Memory V]

instance : Memory (SortedMap Name V) := ⟨fun m => Memory.fits m.entries⟩

instance : Memory (Node V) :=
  ⟨fun node => Memory.fits node.currentState ∧ Memory.fits node.nextState ∧
    Memory.fits node.properties⟩

instance : Memory (Edge V) := ⟨fun edge => Memory.fits edge.target⟩

instance : Memory (Transitions V) :=
  ⟨fun entry => Memory.fits entry.source ∧ Memory.fits entry.edges⟩

instance : Memory (Layout V) :=
  ⟨fun layout => Memory.fits layout.nodes ∧ Memory.fits layout.transitions ∧
    Memory.fits layout.initialStates⟩

instance : Memory (KripkeStructure V) :=
  ⟨fun s => Memory.fits s.nodes ∧ Memory.fits s.edges.entries ∧
    Memory.fits s.initialStates⟩

variable [PropertyValue V]

namespace KripkeStructure

theorem fits_perm {α : Type} [Memory α] {items others : List α} (h : items.Perm others)
    (hfits : Memory.fits items) : Memory.fits others :=
  ⟨h.length_eq ▸ hfits.1, fun a ha => hfits.2 a (h.mem_iff.2 ha)⟩

theorem fits_layout {s : KripkeStructure V} (h : Memory.fits s) : Memory.fits s.layout := by
  obtain ⟨hnodes, hedges, hinitial⟩ := h
  refine ⟨hnodes, ?_, fits_perm (List.mergeSort_perm _ _).symm hinitial⟩
  have hsorted := fits_perm
    (List.mergeSort_perm s.edges.entries
      fun a b => (displayOrder s.nodes a.1 b.1).isLE).symm hedges
  refine ⟨by simpa [layout] using hsorted.1, ?_⟩
  intro entry hentry
  obtain ⟨pair, hpair, rfl⟩ := List.mem_map.1 hentry
  exact hsorted.2 pair hpair

end KripkeStructure

variable [BinaryCodec V] [LawfulBinaryCodec V]

instance : LawfulBinaryCodec (SortedMap Name V) where
  get_append m h tail :=
    Decoder.andThen_of_ok (get_append m.entries h tail)
      (congrArg Except.ok (SortedMap.ofList_entries m))

instance : LawfulBinaryCodec (Node V) where
  get_append node h tail :=
    andThen_put
      (fun parts : Phase × Name × Bool × Name × SortedMap Name V =>
        Node.mk parts.1 parts.2.1 parts.2.2.1 parts.2.2.2.1 parts.2.2.2.2)
      (get_append
        (node.phase, node.currentState, node.executeOnEntry, node.nextState, node.properties)
        (And.intro trivial (And.intro h.1 (And.intro trivial h.2))) tail)

instance : LawfulBinaryCodec (Edge V) where
  get_append edge h tail :=
    andThen_put (fun parts : Node V × Cost => Edge.mk parts.1 parts.2)
      (get_append (edge.target, edge.cost) (And.intro h trivial) tail)

instance : LawfulBinaryCodec (Transitions V) where
  get_append entry h tail :=
    andThen_put (fun parts : Node V × List (Edge V) => Transitions.mk parts.1 parts.2)
      (get_append (entry.source, entry.edges) h tail)

instance : LawfulBinaryCodec (Layout V) where
  get_append layout h tail :=
    andThen_put
      (fun parts : List (Node V) × List (Transitions V) × List (Node V) =>
        Layout.mk parts.1 parts.2.1 parts.2.2)
      (get_append (layout.nodes, layout.transitions, layout.initialStates) h tail)

namespace KripkeStructure

theorem get_put {s : KripkeStructure V} (h : Memory.fits s) (tail : Bytes) :
    BinaryCodec.get (BinaryCodec.put s ++ tail) = .ok (ofLayout s.layout, tail) :=
  andThen_put ofLayout (get_append s.layout (fits_layout h) tail)

end KripkeStructure

end WeightedKripke
