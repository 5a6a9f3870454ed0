import WeightedKripke.Proofs.Json.RoundTrip
import WeightedKripke.Proofs.Snapshot.Canonical
import WeightedKripke.Proofs.Structure.Description
import WeightedKripke.Proofs.Structure.WrittenOrder

/-!
# Decoded structures

Texts and bytes hold a layout, and a structure is decoded from them exactly when a
layout is.  Whatever the layout repeats, scatters or leaves empty, the structure is the
one that it describes.  Writing this structure gives the canonical layout, and from then
on decoding and writing change nothing.
-/

namespace WeightedKripke

open JsonCodec

namespace JsonCodec

variable {α β : Type} [JsonCodec α] [JsonCodec β]

theorem decode_eq_ok_iff {text : String} {a : α} :
    decode text = .ok a ↔
      ∃ rest, reader text.toList = .ok (a, rest) ∧ Json.skipBlanks rest = [] := by
  constructor
  · intro h
    rw [decode, decodeText] at h
    cases hread : reader (α := α) text.toList with
    | error fault =>
        rw [hread] at h
        cases h
    | ok pair =>
        obtain ⟨found, rest⟩ := pair
        cases hblank : Json.skipBlanks rest with
        | nil =>
            simp only [hread, hblank, Except.ok.injEq] at h
            exact ⟨rest, by rw [h], hblank⟩
        | cons char more =>
            simp only [hread, hblank] at h
            cases h
  · rintro ⟨rest, hread, hblank⟩
    simp only [decode, decodeText, hread, hblank]

/-- Both texts of `a`, the compact one and the one in lines, are those of `b`. -/
def SameTexts (a : α) (b : β) : Prop :=
  toCompact a = toCompact b ∧ toIndented a = toIndented b

end JsonCodec

namespace KripkeStructure

variable {V : Type}

section Json

variable [PropertyValue V] [JsonCodec V]

/-- A text holds a structure when it holds a layout of it. -/
theorem decode_eq_ok_iff_layout {text : String} {s : KripkeStructure V} :
    decode text = .ok s ↔ ∃ l : Layout V, decode text = .ok l ∧ ofLayout l = s := by
  constructor
  · intro h
    obtain ⟨rest, hread, hblank⟩ := decode_eq_ok_iff.1 h
    obtain ⟨l, hlayout, hof⟩ := Decoder.andThen_eq_ok hread
    exact ⟨l, decode_eq_ok_iff.2 ⟨rest, hlayout, hblank⟩, Except.ok.inj hof⟩
  · rintro ⟨l, h, rfl⟩
    obtain ⟨rest, hread, hblank⟩ := decode_eq_ok_iff.1 h
    exact decode_eq_ok_iff.2 ⟨rest, Decoder.andThen_of_ok hread rfl, hblank⟩

theorem sameTexts_layout (s : KripkeStructure V) : SameTexts s s.layout :=
  ⟨rfl, rfl⟩

theorem Equivalent.sameTexts {s t : KripkeStructure V} (h : s.Equivalent t) :
    SameTexts s t := by
  rw [SameTexts, toCompact, compactText, toIndented, indentedText, h.encode_eq]
  exact ⟨rfl, rfl⟩

end Json

theorem get_eq_ok_iff_layout [PropertyValue V] [BinaryCodec V] {bytes rest : Bytes}
    {s : KripkeStructure V} :
    BinaryCodec.get bytes = .ok (s, rest) ↔
      ∃ l : Layout V, BinaryCodec.get bytes = .ok (l, rest) ∧ ofLayout l = s := by
  constructor
  · intro h
    obtain ⟨l, hlayout, hof⟩ := Decoder.andThen_eq_ok h
    exact ⟨l, hlayout, Except.ok.inj hof⟩
  · rintro ⟨l, h, rfl⟩
    exact Decoder.andThen_of_ok h rfl

/--
A layout that is decoded from a text or from bytes gives a structure that it describes.

The structure is written as a canonical layout, which describes it as well.  What is
decoded from either text is equal to it and is written in the same way again.
-/
theorem decoding_reaches_canonical_form [StoredValue V] (l : Layout V) :
    ∃ s : KripkeStructure V,
      (∀ text, decode text = .ok l → decode text = .ok s) ∧
        (∀ bytes rest, BinaryCodec.get bytes = .ok (l, rest) →
          BinaryCodec.get bytes = .ok (s, rest)) ∧
        l.Describes s ∧
        (∃ written : Layout V, SameTexts s written ∧ written.Canonical ∧
          written.Describes s) ∧
        ∃ t, DecodesTo s t ∧ t.Equivalent s ∧ SameTexts t s := by
  have hagain := (ofLayout l).ofLayout_layout
  refine ⟨ofLayout l, ?_, ?_, describes_ofLayout l, ?_, ?_⟩
  · intro text h
    exact decode_eq_ok_iff_layout.2 ⟨l, h, rfl⟩
  · intro bytes rest h
    exact get_eq_ok_iff_layout.2 ⟨l, h, rfl⟩
  · exact ⟨_, sameTexts_layout _, canonical_layout _, describes_layout _⟩
  · exact ⟨_, decodesTo_of_reads (ofLayout l).reads_encode, hagain, hagain.sameTexts⟩

open brokenLamp in
/-- A layout in which `broken` is repeated, and `lost` has no edges and is not listed. -/
def scatteredLamp : Layout String where
  nodes := [broken]
  transitions :=
    [⟨broken, [⟨lost, .zero⟩]⟩, ⟨lost, []⟩, ⟨broken, [⟨broken, .zero⟩]⟩]
  initialStates := [broken, lost, broken]

theorem fits_scatteredLamp : Memory.fits scatteredLamp := by
  simp only [Memory.fits, scatteredLamp]
  decide

open brokenLamp in
theorem decoding_reaches_canonical_form_scatteredLamp :
    ∃ s : KripkeStructure String,
      decode (toCompact scatteredLamp) = .ok s ∧
        BinaryCodec.get (BinaryCodec.put scatteredLamp) = .ok (s, []) ∧
        s.edgesFrom broken = [⟨lost, .zero⟩, ⟨broken, .zero⟩] ∧
        lost ∈ s.edges.sources ∧ s.edgesFrom lost = [] ∧ s.edgeCount = 2 ∧
        (∀ node, node ∈ s.initialStates ↔ node = broken ∨ node = lost) ∧
        ∃ t, DecodesTo s t ∧ t.Equivalent s ∧ SameTexts t s := by
  obtain ⟨s, htext, hbytes, hdescribes, _, hagain⟩ :=
    decoding_reaches_canonical_form scatteredLamp
  have hput := LawfulBinaryCodec.get_append scatteredLamp fits_scatteredLamp []
  rw [List.append_nil] at hput
  refine ⟨s, htext _ (kept (Layout String) scatteredLamp).1, hbytes _ _ hput, ?_, ?_, ?_, ?_,
    ?_, hagain⟩
  · rw [hdescribes.edgesFrom_eq]
    rfl
  · rw [hdescribes.mem_sources_iff]
    exact ⟨⟨lost, []⟩, by decide, rfl⟩
  · rw [hdescribes.edgesFrom_eq]
    rfl
  · rw [hdescribes.edgeCount_eq]
    rfl
  · intro node
    rw [hdescribes.mem_initialStates_iff]
    simp only [scatteredLamp, List.mem_cons, List.not_mem_nil, or_false]
    constructor
    · rintro (h | h | h)
      · exact Or.inl h
      · exact Or.inr h
      · exact Or.inl h
    · rintro (h | h)
      · exact Or.inl h
      · exact Or.inr (Or.inl h)

end KripkeStructure

end WeightedKripke
