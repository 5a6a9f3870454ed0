import WeightedKripke.Proofs.Dot.Statement
import WeightedKripke.Proofs.Name.Grammar
import WeightedKripke.Proofs.Snapshot.RoundTrip

/-!
# What is read can be relied on

Whatever a text or a byte sequence holds, a snapshot that is read from it has the
supported version, refers to listed nodes only, and has names of the grammar and
quantities in normal form.  So it can be drawn with all options, and stored and read
again without a change.
-/

namespace WeightedKripke

variable {V : Type}

def Node.names (node : Node V) : List Name :=
  node.currentState :: node.nextState :: node.properties.entries.map Prod.fst

def Edge.quantities (edge : Edge V) : List Quantity :=
  [edge.cost.time, edge.cost.energy]

namespace KripkeStructure

def allEdges (s : KripkeStructure V) : List (Edge V) :=
  s.edges.entries.flatMap Prod.snd

def allNodes (s : KripkeStructure V) : List (Node V) :=
  s.nodes ++ s.edges.sources ++ s.allEdges.map Edge.target ++ s.initialStates

variable [PropertyValue V]

theorem exists_source_of_mem_allEdges {s : KripkeStructure V} {edge : Edge V}
    (h : edge ∈ s.allEdges) : ∃ source, edge ∈ s.edgesFrom source := by
  obtain ⟨⟨source, edges⟩, hentry, hedge⟩ := List.mem_flatMap.1 h
  have hlookup := (EdgeMap.lookup_eq_some_iff s.edges.nodup).2 hentry
  refine ⟨source, ?_⟩
  rw [edgesFrom, EdgeMap.get, hlookup]
  exact hedge

end KripkeStructure

namespace Snapshot

theorem verify_eq_ok_iff [PropertyValue V] {s t : Snapshot V} :
    verify s = .ok t ↔ s.version = 1 ∧ s.model.WellFormed ∧ t = s := by
  rw [← KripkeStructure.validate_eq_ok_iff]
  unfold verify
  by_cases hversion : s.version = supportedVersion
  · have hone : s.version = 1 := hversion
    rw [if_pos hversion]
    cases hvalidate : s.model.validate with
    | ok _ => simp [hone, eq_comm]
    | error error => simp
  · have hone : ¬ s.version = 1 := hversion
    rw [if_neg hversion]
    simp [hone]

variable [StoredValue V]

/-- Everything that a program may expect of a snapshot from outside. -/
structure Sound (s : Snapshot V) : Prop where
  version : s.version = 1
  nodup : s.model.nodes.Nodup
  source_mem : ∀ node, node ∈ s.model.edges.sources → node ∈ s.model.nodes
  target_mem : ∀ edge, edge ∈ s.model.allEdges → edge.target ∈ s.model.nodes
  initial_mem : ∀ node, node ∈ s.model.initialStates → node ∈ s.model.nodes
  names : ∀ node, node ∈ s.model.allNodes → ∀ name, name ∈ node.names →
    IsIdentifier name.text.toList
  quantities : ∀ edge, edge ∈ s.model.allEdges → ∀ q, q ∈ edge.quantities →
    IsNormal q.coefficient q.exponent
  drawn : ∀ options, ∃ text, Dot.render s.model options = .ok text
  stored_compact : ∃ t, ofJson s.toJson = .ok t ∧ t.Equivalent s
  stored_indented : ∃ t, ofJson s.toJsonIndented = .ok t ∧ t.Equivalent s
  stored_binary : Memory.fits s → ∃ t, ofBinary s.toBinary = .ok t ∧ t.Equivalent s

theorem sound_of_verify {s t : Snapshot V} (h : verify t = .ok s) : s.Sound := by
  obtain ⟨hversion, hmodel, rfl⟩ := verify_eq_ok_iff.1 h
  have hdecoded : verify s.decoded = .ok s.decoded := by
    refine verify_eq_ok_iff.2 ⟨hversion, ?_, rfl⟩
    rw [← KripkeStructure.validate_eq_ok_iff, s.validate_decoded]
    exact KripkeStructure.validate_eq_ok_iff.2 hmodel
  have hsame := s.decoded_equivalent
  exact {
    version := hversion
    nodup := hmodel.nodup
    source_mem := fun _ hnode => hmodel.source_mem hnode
    target_mem := by
      intro edge hedge
      obtain ⟨source, hsource⟩ := KripkeStructure.exists_source_of_mem_allEdges hedge
      exact hmodel.target_mem hsource
    initial_mem := fun _ hnode => hmodel.initial_mem hnode
    names := fun _ _ name _ => name.isIdentifier
    quantities := fun _ _ q _ => q.normal
    drawn := Dot.exists_render_of_drawable hmodel.drawable
    stored_compact := ⟨s.decoded, by rw [s.ofJson_toJson, hdecoded], hsame⟩
    stored_indented := ⟨s.decoded, by rw [s.ofJson_toJsonIndented, hdecoded], hsame⟩
    stored_binary := fun hfits => ⟨s.decoded, by rw [ofBinary_toBinary hfits, hdecoded], hsame⟩ }

/-- No text and no bytes lead to a snapshot that is not sound. -/
theorem sound_of_read {s : Snapshot V} (text : String) (bytes : Bytes)
    (h : ofJson text = .ok s ∨ ofBinary bytes = .ok s) : s.Sound := by
  rcases h with h | h
  · unfold ofJson at h
    cases hdecode : JsonCodec.decode (α := Snapshot V) text with
    | error fault => simp [hdecode] at h
    | ok t =>
        rw [hdecode] at h
        exact sound_of_verify h
  · unfold ofBinary at h
    cases hget : BinaryCodec.get (α := Snapshot V) bytes with
    | error fault => simp [hget] at h
    | ok pair =>
        rw [hget] at h
        exact sound_of_verify h

theorem sound_of_read_lamp :
    ∃ s : Snapshot String, ofJson (ofStructure KripkeStructure.lamp).toJson = .ok s ∧
      s.Sound := by
  have hvalid : (ofStructure KripkeStructure.lamp).decoded.model.WellFormed := by
    rw [← KripkeStructure.validate_eq_ok_iff, validate_decoded]
    exact KripkeStructure.validate_eq_ok_iff.2 KripkeStructure.lamp_wellFormed
  have hread : ofJson (ofStructure KripkeStructure.lamp).toJson =
      .ok (ofStructure KripkeStructure.lamp).decoded := by
    rw [ofJson_toJson]
    exact verify_eq_ok_iff.2 ⟨rfl, hvalid, rfl⟩
  exact ⟨_, hread, sound_of_read _ [] (Or.inl hread)⟩

end Snapshot

end WeightedKripke
