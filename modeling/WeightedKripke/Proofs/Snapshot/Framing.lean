import WeightedKripke.Proofs.Binary.Framing
import WeightedKripke.Proofs.Snapshot.RoundTrip

/-!
# Stored bytes frame themselves

The bytes of a snapshot end where its decoder stops: what is stored behind them is not
looked at, and a copy that was cut short is not taken for a smaller snapshot.
-/

namespace WeightedKripke

namespace Snapshot

variable {V : Type} [PropertyValue V] [BinaryCodec V]

instance [SteadyBinaryCodec V] : SteadyBinaryCodec (Snapshot V) :=
  ⟨(steady (α := UInt32 × KripkeStructure V)).andThen _⟩

variable [Memory V] [LawfulBinaryCodec V]

theorem ofBinary_append {s : Snapshot V} (h : Memory.fits s) (tail : Bytes) :
    ofBinary (V := V) (s.toBinary ++ tail) = verify s.decoded := by
  simp only [ofBinary, toBinary, get_put h tail]

theorem get_torn [SteadyBinaryCodec V] {s : Snapshot V} (h : Memory.fits s) {start : Bytes}
    (hstart : start <+: s.toBinary) (hne : start ≠ s.toBinary) :
    BinaryCodec.get (α := Snapshot V) start = .error .malformed := by
  have hread := get_put h []
  rw [List.append_nil] at hread
  exact (steady (α := Snapshot V)).torn hread hstart hne

/--
The stored bytes of a snapshot can be told from what stands around them.

Whatever follows them, they are read with the same result, be it the snapshot or the
error that its version or its structure deserves.  A proper part of them from the start
holds no snapshot, and it fails as such, before a version or a structure is judged.
-/
theorem ofBinary_frames_itself [SteadyBinaryCodec V] (s : Snapshot V) (h : Memory.fits s) :
    (∀ tail, ofBinary (V := V) (s.toBinary ++ tail) = ofBinary s.toBinary) ∧
    (∀ start, start <+: s.toBinary → start ≠ s.toBinary →
      ofBinary (V := V) start = .error (.undecodable .malformed)) := by
  constructor
  · intro tail
    rw [ofBinary_append h tail, ofBinary_toBinary h]
  · intro start hstart hne
    simp only [ofBinary, get_torn h hstart hne]

theorem ofBinary_frames_itself_lamp :
    ofBinary (V := String) ((ofStructure KripkeStructure.lamp).toBinary ++ [1, 0, 0, 0]) =
        ofBinary (ofStructure KripkeStructure.lamp).toBinary ∧
      ofBinary (V := String) [1, 0, 0, 0] = .error (.undecodable .malformed) := by
  obtain ⟨hbehind, htorn⟩ :=
    ofBinary_frames_itself (ofStructure KripkeStructure.lamp) fits_lamp
  have hstart : [1, 0, 0, 0] <+: (ofStructure KripkeStructure.lamp).toBinary :=
    ⟨BinaryCodec.put KripkeStructure.lamp, rfl⟩
  exact ⟨hbehind _, htorn _ hstart (by decide +kernel)⟩

end Snapshot

end WeightedKripke
