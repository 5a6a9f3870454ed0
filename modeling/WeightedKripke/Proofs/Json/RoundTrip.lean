import WeightedKripke.Proofs.Json.Graph
import WeightedKripke.Proofs.Structure.Layout

/-!
# Values come back from their texts

Each value that can be written on its own is decoded from its compact text and from its
text in lines as it was.  In particular normalising a quantity and checking a name
refuse and change nothing that was written.  A structure comes back with the same node
list, map and set, whether it is well formed or not.
-/

namespace WeightedKripke

namespace JsonCodec

variable {α : Type} [JsonCodec α]

/-- Both texts of `a`, the compact one and the one in lines, are decoded to `b`. -/
def DecodesTo (a b : α) : Prop :=
  decode (toCompact a) = .ok b ∧ decode (toIndented a) = .ok b

theorem decodesTo_of_reads {a b : α} (h : Json.Reads reader (encode a) b) :
    DecodesTo a b := by
  constructor
  · rw [decode, toCompact, String.toList_ofList]
    exact Json.decodeText_write h Json.Style.compact_blank
  · rw [decode, toIndented, String.toList_ofList]
    exact Json.decodeText_write h Json.Style.indented_blank

def Kept (α : Type) [JsonCodec α] : Prop :=
  ∀ a : α, DecodesTo a a

theorem kept (α : Type) [JsonCodec α] [LawfulJsonCodec α] : Kept α :=
  fun a => decodesTo_of_reads (LawfulJsonCodec.reads a)

end JsonCodec

open JsonCodec

/--
Values of a property type are kept, and so is what is built from them.

A structure is decoded to one with the same list, map and set.
-/
structure GraphsKept (V : Type) [PropertyValue V] [JsonCodec V] : Prop where
  value : Kept V
  node : Kept (Node V)
  edge : Kept (Edge V)
  model : ∀ s : KripkeStructure V, ∃ t, DecodesTo s t ∧ t.Equivalent s

theorem graphsKept (V : Type) [PropertyValue V] [JsonCodec V] [LawfulJsonCodec V] :
    GraphsKept V where
  value := kept V
  node := kept (Node V)
  edge := kept (Edge V)
  model s := ⟨_, decodesTo_of_reads s.reads_encode, s.ofLayout_layout⟩

/--
Every value is kept by its JSON texts, and the conversions that decoding goes through
take it as it is.
-/
theorem json_keeps_values :
    (Kept Quantity ∧ Kept ScaledQuantity ∧ Kept Cost ∧ Kept Name ∧ Kept Phase) ∧
      (GraphsKept Bool ∧ GraphsKept Int32 ∧ GraphsKept Int64 ∧ GraphsKept UInt32 ∧
        GraphsKept UInt64 ∧ GraphsKept String ∧ GraphsKept SignalLiteral) ∧
      (∀ q : Quantity,
        Quantity.ofWords (UInt64.ofNat q.coefficient) (Int64.ofInt q.exponent) = .ok q) ∧
      ∀ name : Name, Name.ofString name.text = .ok name :=
  ⟨⟨kept Quantity, kept ScaledQuantity, kept Cost, kept Name, kept Phase⟩,
    ⟨graphsKept Bool, graphsKept Int32, graphsKept Int64, graphsKept UInt32,
      graphsKept UInt64, graphsKept String, graphsKept SignalLiteral⟩,
    Quantity.ofWords_self, Name.ofString_text⟩

end WeightedKripke
