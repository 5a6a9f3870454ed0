import WeightedKripke.Proofs.Snapshot.RoundTrip
import WeightedKripke.Proofs.Structure.Canonical
import WeightedKripke.Proofs.Structure.Violation

/-!
# Stored forms are canonical

A structure is written through its layout.  Equivalent structures have one layout, so
they have one stored form; and what is read back is equivalent to what was written, so
structures with one stored form are equivalent.  This holds for all structures, also
for those that are not well formed.
-/

namespace WeightedKripke

/-- What is read from a text is determined by the text. -/
theorem Json.eq_of_write_eq {α : Type} [JsonCodec α] {value other : Json} {a b : α}
    (ha : Reads JsonCodec.reader value a) (hb : Reads JsonCodec.reader other b)
    {style : Style} (hstyle : style.Blank) (h : value.write style 0 = other.write style 0) :
    a = b := by
  have hread := decodeText_write ha hstyle
  rw [h, decodeText_write hb hstyle] at hread
  exact (Except.ok.inj hread).symm

namespace KripkeStructure

variable {V : Type}

section Json

variable [PropertyValue V] [JsonCodec V]

theorem Equivalent.encode_eq {s t : KripkeStructure V} (h : s.Equivalent t) :
    JsonCodec.encode s = JsonCodec.encode t :=
  congrArg (JsonCodec.encode (α := Layout V)) h.layout_eq

variable [LawfulJsonCodec V]

theorem write_eq_iff {s t : KripkeStructure V} {style : Json.Style} (hstyle : style.Blank) :
    (JsonCodec.encode s).write style 0 = (JsonCodec.encode t).write style 0 ↔
      s.Equivalent t := by
  constructor
  · intro h
    apply equivalent_of_ofLayout_eq
    exact Json.eq_of_write_eq s.reads_encode t.reads_encode hstyle h
  · intro h
    rw [h.encode_eq]

theorem toCompact_eq_iff {s t : KripkeStructure V} :
    JsonCodec.toCompact s = JsonCodec.toCompact t ↔ s.Equivalent t := by
  rw [← write_eq_iff Json.Style.compact_blank]
  exact String.ofList_inj

end Json

section Binary

variable [PropertyValue V] [BinaryCodec V]

theorem Equivalent.put_eq {s t : KripkeStructure V} (h : s.Equivalent t) :
    BinaryCodec.put s = BinaryCodec.put t :=
  congrArg (BinaryCodec.put (α := Layout V)) h.layout_eq

variable [Memory V] [LawfulBinaryCodec V]

theorem equivalent_of_put_eq {s t : KripkeStructure V} (hs : Memory.fits s)
    (ht : Memory.fits t) (h : BinaryCodec.put s = BinaryCodec.put t) : s.Equivalent t := by
  have hread := get_put hs []
  rw [h, get_put ht []] at hread
  apply equivalent_of_ofLayout_eq
  exact (congrArg Prod.fst (Except.ok.inj hread)).symm

end Binary

/--
Structures are equivalent exactly when their compact texts are equal, and exactly when
their bytes are.

Bytes hold the lengths of texts and lists as 64-bit words, so only structures that fit
a 64-bit memory are known by their bytes.
-/
theorem equivalent_iff_encoding_eq [StoredValue V] (s t : KripkeStructure V) :
    (s.Equivalent t ↔ JsonCodec.toCompact s = JsonCodec.toCompact t) ∧
      (s.Equivalent t → BinaryCodec.put s = BinaryCodec.put t) ∧
      (Memory.fits s → Memory.fits t → BinaryCodec.put s = BinaryCodec.put t →
        s.Equivalent t) :=
  ⟨toCompact_eq_iff.symm, Equivalent.put_eq, equivalent_of_put_eq⟩

theorem fits_brokenLamp : Memory.fits brokenLamp := by
  simp only [Memory.fits, brokenLamp, lamp]
  decide

/-- The broken lamp is stored in one form, however it is enumerated, and not as the lamp. -/
theorem encoding_eq_brokenLamp :
    JsonCodec.toCompact brokenLamp.reversed = JsonCodec.toCompact brokenLamp ∧
      BinaryCodec.put brokenLamp.reversed = BinaryCodec.put brokenLamp ∧
      BinaryCodec.put brokenLamp ≠ BinaryCodec.put lamp := by
  obtain ⟨htext, hbytes, _⟩ := equivalent_iff_encoding_eq brokenLamp.reversed brokenLamp
  have hother : ¬ brokenLamp.Equivalent lamp := by decide
  have hlamp := (equivalent_iff_encoding_eq brokenLamp lamp).2.2 fits_brokenLamp
    Snapshot.fits_lamp
  exact ⟨htext.1 brokenLamp.reversed_equivalent, hbytes brokenLamp.reversed_equivalent,
    fun h => hother (hlamp h)⟩

end KripkeStructure

end WeightedKripke
