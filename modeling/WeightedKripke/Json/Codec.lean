import WeightedKripke.Cost
import WeightedKripke.Json.Record
import WeightedKripke.Json.Value
import WeightedKripke.Quantity.Units
import WeightedKripke.Signal

/-!
# JSON forms of values

How property values, quantities, costs and names are written as JSON and read back.
Quantities are normalised and names are checked when they are read, so every value
that was read satisfies the invariants of its type.
-/

namespace WeightedKripke

class JsonCodec (α : Type) where
  encode : α → Json
  reader : Json.Reader α

namespace JsonCodec

variable {α : Type} [JsonCodec α]

def compactText (a : α) : List Char :=
  (encode a).compactText

def indentedText (a : α) : List Char :=
  (encode a).indentedText

/-- Read a text that holds one value, with nothing but blanks around it. -/
def decodeText (text : List Char) : Except Fault α :=
  match reader (α := α) text with
  | .error fault => .error fault
  | .ok (a, rest) =>
      match Json.skipBlanks rest with
      | [] => .ok a
      | _ :: _ => .error .malformed

def toCompact (a : α) : String :=
  String.ofList (compactText a)

def toIndented (a : α) : String :=
  String.ofList (indentedText a)

def decode (text : String) : Except Fault α :=
  decodeText text.toList

theorem exists_of_decode {text : String} {a : α} (h : decode text = .ok a) :
    ∃ rest, reader text.toList = .ok (a, rest) := by
  unfold decode decodeText at h
  cases hread : reader (α := α) text.toList with
  | error fault =>
      rw [hread] at h
      cases h
  | ok pair =>
      obtain ⟨b, rest⟩ := pair
      rw [hread] at h
      dsimp only at h
      split at h
      · cases h
        exact ⟨rest, rfl⟩
      · cases h

end JsonCodec

namespace Json

namespace Reader

def integerIn (low high : Int) : Reader { i : Int // low ≤ i ∧ i ≤ high } :=
  Decoder.andThen integer fun i =>
    if h : low ≤ i ∧ i ≤ high then .ok ⟨i, h⟩ else .error .malformed

def uint64 : Reader UInt64 :=
  Decoder.andThen (integerIn 0 (2 ^ 64 - 1)) fun i => .ok (UInt64.ofNat i.val.toNat)

def int64 : Reader Int64 :=
  Decoder.andThen (integerIn (-2 ^ 63) (2 ^ 63 - 1)) fun i => .ok (Int64.ofInt i.val)

def uint32 : Reader UInt32 :=
  Decoder.andThen (integerIn 0 (2 ^ 32 - 1)) fun i => .ok (UInt32.ofNat i.val.toNat)

def int32 : Reader Int32 :=
  Decoder.andThen (integerIn (-2 ^ 31) (2 ^ 31 - 1)) fun i => .ok (Int32.ofInt i.val)

def signalPayload : SignalKind → Reader SignalLiteral
  | .bit => Decoder.andThen (choice Bit.name Bit.all) fun value => .ok (.bit value)
  | .logic => Decoder.andThen (choice Logic.name Logic.all) fun value => .ok (.logic value)
  | .integer => Decoder.andThen int64 fun value => .ok (.integer value)
  | .boolean => Decoder.andThen bool fun value => .ok (.boolean value)

end Reader

end Json

instance : JsonCodec Bool where
  encode := .bool
  reader := Json.Reader.bool

instance : JsonCodec Int32 where
  encode value := .int value.toInt
  reader := Json.Reader.int32

instance : JsonCodec Int64 where
  encode value := .int value.toInt
  reader := Json.Reader.int64

instance : JsonCodec UInt32 where
  encode value := .int value.toNat
  reader := Json.Reader.uint32

instance : JsonCodec UInt64 where
  encode value := .int value.toNat
  reader := Json.Reader.uint64

instance : JsonCodec String where
  encode := .string
  reader := Json.Reader.string

namespace SignalLiteral

def payloadJson : SignalLiteral → Json
  | bit value => .string value.name
  | logic value => .string value.name
  | integer value => JsonCodec.encode value
  | boolean value => JsonCodec.encode value

instance : JsonCodec SignalLiteral where
  encode literal := .object [(literal.kind.name, literal.payloadJson)]
  reader := Json.Reader.tagged SignalKind.name SignalKind.all Json.Reader.signalPayload

end SignalLiteral

instance : JsonCodec Name where
  encode name := .string name.text
  reader := Decoder.andThen Json.Reader.string fun text => (Name.ofString text).mapError .name

namespace Quantity

/-- The fields of a quantity, before it is normalised. -/
def jsonFields :=
  Json.Fields.field "coefficient" Json.Reader.uint64 <|
  .field "exponent" Json.Reader.int64 .done

/-- Quantities are normalised when they are read. -/
instance : JsonCodec Quantity where
  encode q := .object [("coefficient", .int q.coefficient), ("exponent", .int q.exponent)]
  reader :=
    Decoder.andThen jsonFields.record fun (coefficient, exponent, ()) =>
      (ofWords coefficient exponent).mapError .quantity

end Quantity

namespace ScaledQuantity

def jsonFields :=
  Json.Fields.field "coefficient" (Json.Reader.integerIn 0 (2 ^ 128 - 1)) <|
  .field "exponent" Json.Reader.int64 .done

/-- Scaled quantities are taken as they are. -/
instance : JsonCodec ScaledQuantity where
  encode q := .object [("coefficient", .int q.coefficient), ("exponent", .int q.exponent)]
  reader :=
    Decoder.andThen jsonFields.record fun (coefficient, exponent, ()) =>
      .ok
        { coefficient := coefficient.val.toNat
          exponent := exponent.toInt
          coefficient_lt := by
            have := coefficient.property
            omega
          exponent_range := Quantity.exponentRange_toInt exponent }

end ScaledQuantity

namespace Cost

def jsonFields :=
  Json.Fields.field "time" (JsonCodec.reader (α := Quantity)) <|
  .field "energy" (JsonCodec.reader (α := Quantity)) .done

instance : JsonCodec Cost where
  encode cost :=
    .object
      [("time", JsonCodec.encode cost.time), ("energy", JsonCodec.encode cost.energy)]
  reader :=
    Decoder.andThen jsonFields.record fun (time, energy, ()) => .ok ⟨time, energy⟩

end Cost

end WeightedKripke
