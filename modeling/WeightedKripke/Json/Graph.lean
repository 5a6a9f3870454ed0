import WeightedKripke.Json.Codec
import WeightedKripke.Structure.Layout

/-!
# JSON forms of nodes and structures

A node is an object with its properties as a nested object, in the order of their
names.  Structures are written and read through their layout, since nodes cannot be
keys of an object.
-/

namespace WeightedKripke

instance : JsonCodec Phase where
  encode phase := .string phase.name
  reader := Json.Reader.choice Phase.name Phase.all

variable {V : Type} [PropertyValue V] [JsonCodec V]

namespace Json

namespace Reader

/-- Properties by name; the last value of a repeated name counts. -/
def properties : Reader (SortedMap Name V) :=
  Decoder.andThen
    (map (fun text => (Name.ofString text).mapError .name) JsonCodec.reader)
    fun entries => .ok (SortedMap.ofList entries)

end Reader

end Json

namespace Node

def jsonFields (V : Type) [PropertyValue V] [JsonCodec V] :=
  Json.Fields.field "type" (JsonCodec.reader (α := Phase)) <|
  .field "current_state" (JsonCodec.reader (α := Name)) <|
  .field "execute_on_entry" (JsonCodec.reader (α := Bool)) <|
  .field "next_state" (JsonCodec.reader (α := Name)) <|
  .field "properties" (Json.Reader.properties (V := V)) .done

instance : JsonCodec (Node V) where
  encode node :=
    .object
      [("type", JsonCodec.encode node.phase),
        ("current_state", JsonCodec.encode node.currentState),
        ("execute_on_entry", JsonCodec.encode node.executeOnEntry),
        ("next_state", JsonCodec.encode node.nextState),
        ("properties", .object
          (node.properties.entries.map fun entry =>
            (entry.1.text, JsonCodec.encode entry.2)))]
  reader :=
    Decoder.andThen (jsonFields V).record
      fun (phase, currentState, executeOnEntry, nextState, properties, ()) =>
        .ok ⟨phase, currentState, executeOnEntry, nextState, properties⟩

end Node

namespace Edge

def jsonFields (V : Type) [PropertyValue V] [JsonCodec V] :=
  Json.Fields.field "target" (JsonCodec.reader (α := Node V)) <|
  .field "cost" (JsonCodec.reader (α := Cost)) .done

instance : JsonCodec (Edge V) where
  encode edge :=
    .object
      [("target", JsonCodec.encode edge.target), ("cost", JsonCodec.encode edge.cost)]
  reader :=
    Decoder.andThen (jsonFields V).record fun (target, cost, ()) => .ok ⟨target, cost⟩

end Edge

instance {α : Type} [JsonCodec α] : JsonCodec (List α) where
  encode items := .array (items.map JsonCodec.encode)
  reader := Json.Reader.list JsonCodec.reader

namespace Transitions

def jsonFields (V : Type) [PropertyValue V] [JsonCodec V] :=
  Json.Fields.field "source" (JsonCodec.reader (α := Node V)) <|
  .field "edges" (JsonCodec.reader (α := List (Edge V))) .done

instance : JsonCodec (Transitions V) where
  encode entry :=
    .object
      [("source", JsonCodec.encode entry.source), ("edges", JsonCodec.encode entry.edges)]
  reader :=
    Decoder.andThen (jsonFields V).record fun (source, edges, ()) => .ok ⟨source, edges⟩

end Transitions

namespace Layout

def jsonFields (V : Type) [PropertyValue V] [JsonCodec V] :=
  Json.Fields.field "nodes" (JsonCodec.reader (α := List (Node V))) <|
  .field "edges" (JsonCodec.reader (α := List (Transitions V))) <|
  .field "initial_states" (JsonCodec.reader (α := List (Node V))) .done

instance : JsonCodec (Layout V) where
  encode layout :=
    .object
      [("nodes", JsonCodec.encode layout.nodes),
        ("edges", JsonCodec.encode layout.transitions),
        ("initial_states", JsonCodec.encode layout.initialStates)]
  reader :=
    Decoder.andThen (jsonFields V).record
      fun (nodes, transitions, initialStates, ()) =>
        .ok ⟨nodes, transitions, initialStates⟩

end Layout

/-- Structures are written and read as their layout. -/
instance : JsonCodec (KripkeStructure V) where
  encode s := JsonCodec.encode s.layout
  reader := Decoder.andThen (JsonCodec.reader (α := Layout V)) fun layout => .ok (.ofLayout layout)

end WeightedKripke
