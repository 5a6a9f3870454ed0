import WeightedKripke.Json.Graph
import WeightedKripke.Proofs.Json.Codec
import WeightedKripke.Proofs.SortedMap

/-!
# JSON forms of nodes and structures are read back

Nodes, edges and layouts are read back as they were.  A structure is written as
its layout, so what is read back is the structure that the layout describes.
-/

namespace WeightedKripke

open Json.Reader

theorem Phase.named : Named Phase.name Phase.all := by
  intro phase
  cases phase <;> decide

instance : LawfulJsonCodec Phase := ⟨reads_choice Phase.named⟩

/-- Lists are read back when their items are. -/
instance {α : Type} [JsonCodec α] [LawfulJsonCodec α] : LawfulJsonCodec (List α) where
  reads _ := reads_list fun a _ => LawfulJsonCodec.reads a

variable {V : Type} [JsonCodec V] [LawfulJsonCodec V]

theorem Json.Reader.reads_properties (m : SortedMap Name V) :
    Json.Reads properties
      (.object (m.entries.map fun entry => (entry.1.text, JsonCodec.encode entry.2))) m := by
  have hentries : Json.Reads
      (map (fun text => (Name.ofString text).mapError Fault.name) JsonCodec.reader)
      (.object (m.entries.map fun entry => (entry.1.text, JsonCodec.encode entry.2)))
      m.entries :=
    reads_map (by
      intro name
      rw [Name.ofString_text]
      rfl) fun entry _ => LawfulJsonCodec.reads entry.2
  exact hentries.andThen (congrArg Except.ok (SortedMap.ofList_entries m))

variable [PropertyValue V]

namespace Node

theorem written_jsonFields (node : Node V) :
    (jsonFields V).Written
      (node.phase, node.currentState, node.executeOnEntry, node.nextState,
        node.properties, ())
      [("type", JsonCodec.encode node.phase),
        ("current_state", JsonCodec.encode node.currentState),
        ("execute_on_entry", JsonCodec.encode node.executeOnEntry),
        ("next_state", JsonCodec.encode node.nextState),
        ("properties", .object
          (node.properties.entries.map fun entry =>
            (entry.1.text, JsonCodec.encode entry.2)))]
      (some node.phase, some node.currentState, some node.executeOnEntry,
        some node.nextState, some node.properties, ()) :=
  .field (LawfulJsonCodec.reads node.phase) (by simp)
    (.field (LawfulJsonCodec.reads node.currentState) (by simp)
      (.field (LawfulJsonCodec.reads node.executeOnEntry) (by simp)
        (.field (LawfulJsonCodec.reads node.nextState) (by simp)
          (.field (reads_properties node.properties) (by simp) .done))))

instance : LawfulJsonCodec (Node V) where
  reads node := (Json.Fields.reads_record node.written_jsonFields).andThen rfl

end Node

namespace Edge

theorem written_jsonFields (edge : Edge V) :
    (jsonFields V).Written (edge.target, edge.cost, ())
      [("target", JsonCodec.encode edge.target), ("cost", JsonCodec.encode edge.cost)]
      (some edge.target, some edge.cost, ()) :=
  .field (LawfulJsonCodec.reads edge.target) (by simp)
    (.field (LawfulJsonCodec.reads edge.cost) (by simp) .done)

instance : LawfulJsonCodec (Edge V) where
  reads edge := (Json.Fields.reads_record edge.written_jsonFields).andThen rfl

end Edge

namespace Transitions

theorem written_jsonFields (entry : Transitions V) :
    (jsonFields V).Written (entry.source, entry.edges, ())
      [("source", JsonCodec.encode entry.source), ("edges", JsonCodec.encode entry.edges)]
      (some entry.source, some entry.edges, ()) :=
  .field (LawfulJsonCodec.reads entry.source) (by simp)
    (.field (LawfulJsonCodec.reads entry.edges) (by simp) .done)

instance : LawfulJsonCodec (Transitions V) where
  reads entry := (Json.Fields.reads_record entry.written_jsonFields).andThen rfl

end Transitions

namespace Layout

theorem written_jsonFields (layout : Layout V) :
    (jsonFields V).Written (layout.nodes, layout.transitions, layout.initialStates, ())
      [("nodes", JsonCodec.encode layout.nodes),
        ("edges", JsonCodec.encode layout.transitions),
        ("initial_states", JsonCodec.encode layout.initialStates)]
      (some layout.nodes, some layout.transitions, some layout.initialStates, ()) :=
  .field (LawfulJsonCodec.reads layout.nodes) (by simp)
    (.field (LawfulJsonCodec.reads layout.transitions) (by simp)
      (.field (LawfulJsonCodec.reads layout.initialStates) (by simp) .done))

instance : LawfulJsonCodec (Layout V) where
  reads layout := (Json.Fields.reads_record layout.written_jsonFields).andThen rfl

end Layout

namespace KripkeStructure

theorem reads_encode (s : KripkeStructure V) :
    Json.Reads (JsonCodec.reader (α := KripkeStructure V)) (JsonCodec.encode s)
      (ofLayout s.layout) :=
  (LawfulJsonCodec.reads s.layout).map ofLayout

end KripkeStructure

end WeightedKripke
