import WeightedKripke.Binary.Codec
import WeightedKripke.Structure.Layout

/-!
# Binary forms of nodes and structures

The parts of a node, an edge or a structure follow one another in the order of
their definition.  Structures are written and read through their layout.
-/

namespace WeightedKripke

instance : BinaryCodec Phase where
  put phase := Binary.putWord 4 phase.rank
  get := Binary.getAlternative Phase.all

variable {V : Type} [PropertyValue V] [BinaryCodec V]

/-- Properties by name; the last value of a repeated name counts. -/
instance : BinaryCodec (SortedMap Name V) where
  put m := BinaryCodec.put m.entries
  get := Decoder.andThen BinaryCodec.get fun entries => .ok (SortedMap.ofList entries)

instance : BinaryCodec (Node V) where
  put node :=
    BinaryCodec.put
      (node.phase, node.currentState, node.executeOnEntry, node.nextState, node.properties)
  get := Decoder.andThen BinaryCodec.get
    fun (phase, currentState, executeOnEntry, nextState, properties) =>
      .ok ⟨phase, currentState, executeOnEntry, nextState, properties⟩

instance : BinaryCodec (Edge V) where
  put edge := BinaryCodec.put (edge.target, edge.cost)
  get := Decoder.andThen BinaryCodec.get fun (target, cost) => .ok ⟨target, cost⟩

instance : BinaryCodec (Transitions V) where
  put entry := BinaryCodec.put (entry.source, entry.edges)
  get := Decoder.andThen BinaryCodec.get fun (source, edges) => .ok ⟨source, edges⟩

instance : BinaryCodec (Layout V) where
  put layout :=
    BinaryCodec.put (layout.nodes, layout.transitions, layout.initialStates)
  get := Decoder.andThen BinaryCodec.get
    fun (nodes, transitions, initialStates) => .ok ⟨nodes, transitions, initialStates⟩

/-- Structures are written and read as their layout. -/
instance : BinaryCodec (KripkeStructure V) where
  put s := BinaryCodec.put s.layout
  get := Decoder.andThen BinaryCodec.get fun layout => .ok (.ofLayout layout)

end WeightedKripke
