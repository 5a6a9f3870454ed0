import WeightedKripke.Proofs.Json.Record
import WeightedKripke.Proofs.Quantity.Normal

/-!
# JSON forms are read back

`LawfulJsonCodec` says that the text of each value of a type is read back as the
value.  Property values, names, quantities and costs have this property: checking
a name or normalising a quantity never changes a value that was written.
-/

namespace WeightedKripke

class LawfulJsonCodec (α : Type) [JsonCodec α] : Prop where
  reads (a : α) : Json.Reads JsonCodec.reader (JsonCodec.encode a) a

namespace Json

theorem decodeText_write {α : Type} [JsonCodec α] {value : Json} {a : α}
    (h : Reads (JsonCodec.reader (α := α)) value a) {style : Style} (hstyle : style.Blank) :
    JsonCodec.decodeText (value.write style 0) = .ok a := by
  have hread := h.after_blanks hstyle 0 (by simp : ∀ c, c ∈ [] → isBlank c = true)
    delimited_nil
  simp only [List.nil_append, List.append_nil] at hread
  simp [JsonCodec.decodeText, hread, skipBlanks]

namespace Reader

theorem reads_integerIn {low high i : Int} (h : low ≤ i ∧ i ≤ high) :
    Reads (integerIn low high) (.int i) ⟨i, h⟩ :=
  (reads_integer i).andThen (dif_pos h)

theorem reads_uint64 {n : Nat} (h : n < 2 ^ 64) :
    Reads uint64 (.int n) (UInt64.ofNat n) :=
  (reads_integerIn (by omega)).andThen (by simp)

theorem reads_uint32 {n : Nat} (h : n < 2 ^ 32) :
    Reads uint32 (.int n) (UInt32.ofNat n) :=
  (reads_integerIn (by omega)).andThen (by simp)

theorem reads_int64 {i : Int} (h : -2 ^ 63 ≤ i ∧ i < 2 ^ 63) :
    Reads int64 (.int i) (Int64.ofInt i) :=
  (reads_integerIn (by omega)).andThen rfl

theorem reads_int32 {i : Int} (h : -2 ^ 31 ≤ i ∧ i < 2 ^ 31) :
    Reads int32 (.int i) (Int32.ofInt i) :=
  (reads_integerIn (by omega)).andThen rfl

end Reader

end Json

open Json.Reader

instance : LawfulJsonCodec Bool := ⟨reads_bool⟩

instance : LawfulJsonCodec String := ⟨reads_string⟩

instance : LawfulJsonCodec UInt64 where
  reads word := by
    have hread := reads_uint64 word.toNat_lt
    rwa [UInt64.ofNat_toNat] at hread

instance : LawfulJsonCodec UInt32 where
  reads word := by
    have hread := reads_uint32 word.toNat_lt
    rwa [UInt32.ofNat_toNat] at hread

instance : LawfulJsonCodec Int64 where
  reads word := by
    have hread := reads_int64 ⟨word.le_toInt, word.toInt_lt⟩
    rwa [Int64.ofInt_toInt] at hread

instance : LawfulJsonCodec Int32 where
  reads word := by
    have hread := reads_int32 ⟨word.le_toInt, word.toInt_lt⟩
    rwa [Int32.ofInt_toInt] at hread

/-! ## Signal literals -/

theorem Bit.named : Named Bit.name Bit.all := by
  intro value
  cases value <;> decide

theorem Logic.named : Named Logic.name Logic.all := by
  intro value
  cases value <;> decide

theorem SignalKind.named : Named SignalKind.name SignalKind.all := by
  intro kind
  cases kind <;> decide

theorem SignalLiteral.reads_payload (literal : SignalLiteral) :
    Json.Reads (signalPayload literal.kind) literal.payloadJson literal := by
  cases literal with
  | bit value => exact (reads_choice Bit.named value).map bit
  | logic value => exact (reads_choice Logic.named value).map logic
  | integer value => exact (LawfulJsonCodec.reads value).map integer
  | boolean value => exact (LawfulJsonCodec.reads value).map boolean

instance : LawfulJsonCodec SignalLiteral where
  reads literal := reads_tagged SignalKind.named literal.reads_payload

/-! ## Names, quantities and costs -/

instance : LawfulJsonCodec Name where
  reads name := (reads_string name.text).andThen (by rw [Name.ofString_text]; rfl)

theorem Quantity.written_jsonFields (q : Quantity) :
    jsonFields.Written (UInt64.ofNat q.coefficient, Int64.ofInt q.exponent, ())
      [("coefficient", .int q.coefficient), ("exponent", .int q.exponent)]
      (some (UInt64.ofNat q.coefficient), some (Int64.ofInt q.exponent), ()) :=
  .field (reads_uint64 q.coefficient_lt) (by simp)
    (.field (reads_int64 q.exponent_range) (by simp) .done)

instance : LawfulJsonCodec Quantity where
  reads q :=
    (Json.Fields.reads_record q.written_jsonFields).andThen
      (by simp only [Quantity.ofWords_self]; rfl)

theorem ScaledQuantity.written_jsonFields (q : ScaledQuantity) :
    jsonFields.Written
      (⟨(q.coefficient : Int), by have := q.coefficient_lt; omega⟩, Int64.ofInt q.exponent, ())
      [("coefficient", .int q.coefficient), ("exponent", .int q.exponent)]
      (some ⟨(q.coefficient : Int), by have := q.coefficient_lt; omega⟩,
        some (Int64.ofInt q.exponent), ()) :=
  .field (reads_integerIn _) (by simp) (.field (reads_int64 q.exponent_range) (by simp) .done)

instance : LawfulJsonCodec ScaledQuantity where
  reads q := by
    have hexponent : (Int64.ofInt q.exponent).toInt = q.exponent :=
      Int64.toInt_ofInt_of_le q.exponent_range.1 q.exponent_range.2
    refine (Json.Fields.reads_record q.written_jsonFields).andThen (congrArg Except.ok ?_)
    exact ScaledQuantity.ext (Int.toNat_natCast q.coefficient) hexponent

theorem Cost.written_jsonFields (cost : Cost) :
    jsonFields.Written (cost.time, cost.energy, ())
      [("time", JsonCodec.encode cost.time), ("energy", JsonCodec.encode cost.energy)]
      (some cost.time, some cost.energy, ()) :=
  .field (LawfulJsonCodec.reads cost.time) (by simp)
    (.field (LawfulJsonCodec.reads cost.energy) (by simp) .done)

instance : LawfulJsonCodec Cost where
  reads cost := (Json.Fields.reads_record cost.written_jsonFields).andThen rfl

end WeightedKripke
