import WeightedKripke.Proofs.Binary.Graph
import WeightedKripke.Proofs.Json.Graph
import WeightedKripke.Proofs.Structure.Equivalence
import WeightedKripke.Proofs.Structure.Layout
import WeightedKripke.Proofs.Structure.Validity
import WeightedKripke.Snapshot

/-!
# Stored snapshots are read back

Compact JSON, JSON in lines and bytes all decode to the same snapshot, the one that
the layout of the written structure describes.  It is equivalent to the snapshot
that was written, so it is verified with the same outcome: invalid structures are
stored without change, and each format reports the same error for them.
-/

namespace WeightedKripke

class StoredValue (V : Type) extends PropertyValue V, JsonCodec V, BinaryCodec V, Memory V,
  LawfulJsonCodec V, LawfulBinaryCodec V

instance : StoredValue Bool where

instance : StoredValue Int32 where

instance : StoredValue Int64 where

instance : StoredValue UInt32 where

instance : StoredValue UInt64 where

instance : StoredValue String where

instance : StoredValue SignalLiteral where

namespace Snapshot

variable {V : Type}

section Decoded

variable [PropertyValue V]

/-- The snapshot that is decoded from the stored form of `s`. -/
def decoded (s : Snapshot V) : Snapshot V :=
  ⟨s.version, .ofLayout s.model.layout⟩

theorem decoded_equivalent (s : Snapshot V) : s.decoded.Equivalent s :=
  ⟨rfl, s.model.ofLayout_layout⟩

theorem validate_decoded (s : Snapshot V) : s.decoded.model.validate = s.model.validate :=
  s.decoded_equivalent.2.validate_eq

inductive Restored (s : Snapshot V) : Except (SnapshotError V) (Snapshot V) → Prop where
  | accepted {t : Snapshot V} (version : s.version = 1) (valid : s.model.validate = .ok ())
      (same : t.Equivalent s) : Restored s (.ok t)
  | unsupported (version : s.version ≠ 1) :
      Restored s (.error (.unsupportedVersion s.version))
  | invalid {error : GraphError V} (version : s.version = 1)
      (found : s.model.validate = .error error) : Restored s (.error (.invalid error))

theorem restored_verify (s : Snapshot V) : Restored s (verify s.decoded) := by
  unfold verify
  by_cases hversion : s.decoded.version = supportedVersion
  · rw [if_pos hversion, s.validate_decoded]
    cases hvalidate : s.model.validate with
    | ok _ => exact .accepted hversion hvalidate s.decoded_equivalent
    | error error => exact .invalid hversion hvalidate
  · rw [if_neg hversion]
    exact .unsupported hversion

end Decoded

section Json

variable [PropertyValue V] [JsonCodec V] [LawfulJsonCodec V]

theorem written_jsonFields (s : Snapshot V) :
    (jsonFields V).Written (s.version, s.decoded.model, ())
      [("version", JsonCodec.encode s.version), ("structure", JsonCodec.encode s.model)]
      (some s.version, some s.decoded.model, ()) :=
  .field (LawfulJsonCodec.reads s.version) (by simp)
    (.field s.model.reads_encode (by simp) .done)

theorem reads_encode (s : Snapshot V) :
    Json.Reads (JsonCodec.reader (α := Snapshot V)) (JsonCodec.encode s) s.decoded :=
  (Json.Fields.reads_record s.written_jsonFields).andThen rfl

/-- JSON text of a snapshot is decoded in every style whose gaps are blank. -/
theorem ofJson_write (s : Snapshot V) {style : Json.Style} (hstyle : style.Blank) :
    ofJson (String.ofList ((JsonCodec.encode s).write style 0)) = verify s.decoded := by
  have hdecode := Json.decodeText_write s.reads_encode hstyle
  simp only [ofJson, JsonCodec.decode, String.toList_ofList, hdecode]

theorem ofJson_toJson (s : Snapshot V) : ofJson s.toJson = verify s.decoded :=
  s.ofJson_write Json.Style.compact_blank

theorem ofJson_toJsonIndented (s : Snapshot V) :
    ofJson s.toJsonIndented = verify s.decoded :=
  s.ofJson_write Json.Style.indented_blank

end Json

section Binary

instance [Memory V] : Memory (Snapshot V) := ⟨fun s => Memory.fits s.model⟩

variable [PropertyValue V] [BinaryCodec V] [Memory V] [LawfulBinaryCodec V]

theorem get_put {s : Snapshot V} (h : Memory.fits s) (tail : Bytes) :
    BinaryCodec.get (BinaryCodec.put s ++ tail) = .ok (s.decoded, tail) := by
  have hversion := get_append s.version trivial (BinaryCodec.put s.model ++ tail)
  have hmodel := KripkeStructure.get_put h tail
  exact Decoder.andThen_of_ok
    (Binary.getPair_append (s.version, s.model) hversion hmodel) rfl

theorem ofBinary_toBinary {s : Snapshot V} (h : Memory.fits s) :
    ofBinary s.toBinary = verify s.decoded := by
  have hget := get_put h []
  rw [List.append_nil] at hget
  simp only [ofBinary, toBinary, hget]

end Binary

/--
All three stored forms of a snapshot are read with one result.

It is the snapshot itself, or the error that its version or its structure deserves.
Bytes hold the lengths of texts and lists as 64-bit words, so they speak of the
snapshots that fit a 64-bit memory.
-/
theorem read_stored [StoredValue V] (s : Snapshot V) :
    ∃ result, Restored s result ∧ ofJson s.toJson = result ∧
      ofJson s.toJsonIndented = result ∧
      (Memory.fits s → ofBinary s.toBinary = result) :=
  ⟨verify s.decoded, s.restored_verify, s.ofJson_toJson, s.ofJson_toJsonIndented,
    ofBinary_toBinary⟩

theorem fits_lamp : Memory.fits (ofStructure KripkeStructure.lamp) := by
  simp only [Memory.fits, ofStructure, KripkeStructure.lamp]
  decide

theorem read_stored_lamp :
    ∃ t : Snapshot String, t.Equivalent (ofStructure KripkeStructure.lamp) ∧
      ofJson (ofStructure KripkeStructure.lamp).toJson = .ok t ∧
      ofJson (ofStructure KripkeStructure.lamp).toJsonIndented = .ok t ∧
      ofBinary (ofStructure KripkeStructure.lamp).toBinary = .ok t := by
  obtain ⟨result, hresult, hcompact, hindented, hbinary⟩ :=
    read_stored (ofStructure KripkeStructure.lamp)
  have hvalid : KripkeStructure.lamp.validate = .ok () :=
    KripkeStructure.validate_eq_ok_iff.2 KripkeStructure.lamp_wellFormed
  cases hresult with
  | accepted _ _ same => exact ⟨_, same, hcompact, hindented, hbinary fits_lamp⟩
  | unsupported version => exact absurd rfl version
  | invalid _ found =>
      rw [ofStructure, hvalid] at found
      cases found

end Snapshot

end WeightedKripke
