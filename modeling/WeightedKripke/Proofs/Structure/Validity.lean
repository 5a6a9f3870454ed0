import WeightedKripke.Structure.Validation

/-!
# Validation decides well-formedness

Each of the four checks finds nothing exactly when its part of `WellFormed` holds.
The targets are only checked for listed nodes; other nodes have no edges once every
source is known to be listed.
-/

namespace WeightedKripke

theorem repetitionAfter?_eq_none_iff {α : Type} [DecidableEq α] {seen members : List α}
    (hseen : seen.Nodup) :
    repetitionAfter? seen members = none ↔ (seen ++ members).Nodup := by
  induction members generalizing seen with
  | nil => simp [repetitionAfter?, hseen]
  | cons a rest ih =>
      unfold repetitionAfter?
      cases hfirst : seen.idxOf? a with
      | some first =>
          have hmem : a ∈ seen := by
            rw [← List.isSome_idxOf?, hfirst]
            rfl
          have hrepeated : ¬ (seen ++ a :: rest).Nodup := by
            intro hnodup
            exact (List.nodup_append.1 hnodup).2.2 a hmem a List.mem_cons_self rfl
          simp [hrepeated]
      | none =>
          have hfresh : a ∉ seen := List.idxOf?_eq_none_iff.1 hfirst
          have hnext : (seen ++ [a]).Nodup := by
            refine List.nodup_append.2 ⟨hseen, by simp, ?_⟩
            intro b hb c hc hbc
            rw [List.mem_singleton] at hc
            exact hfresh (hc ▸ hbc ▸ hb)
          have hrest := ih hnext
          rw [List.append_assoc] at hrest
          exact hrest

theorem firstRepetition?_eq_none_iff {α : Type} [DecidableEq α] {members : List α} :
    firstRepetition? members = none ↔ members.Nodup :=
  repetitionAfter?_eq_none_iff List.nodup_nil

theorem least?_filter_eq_none_iff {α : Type} [Ord α] {members : List α} {p : α → Prop}
    [DecidablePred p] :
    least? (members.filter fun a => decide (¬ p a)) = none ↔ ∀ a, a ∈ members → p a := by
  rw [least?_eq_none_iff, List.filter_eq_nil_iff]
  simp

theorem findSome?_zipIdx_eq_none_iff {α β : Type} {members : List α}
    {f : α × Nat → Option β} (start : Nat) {p : α → Prop}
    (hf : ∀ a i, f (a, i) = none ↔ p a) :
    (members.zipIdx start).findSome? f = none ↔ ∀ a, a ∈ members → p a := by
  induction members generalizing start with
  | nil => simp
  | cons a rest ih =>
      have hrest := ih (start + 1)
      rw [List.zipIdx_cons, List.findSome?_cons]
      cases hfirst : f (a, start) with
      | none =>
          have ha := (hf a start).1 hfirst
          simp [hrest, ha]
      | some b =>
          have ha : ¬ p a := fun hp => by
            rw [(hf a start).2 hp] at hfirst
            cases hfirst
          simp [ha]

namespace KripkeStructure

variable {V : Type} [PropertyValue V] {s : KripkeStructure V}

theorem mem_sources_of_mem_edgesFrom {node : Node V} {edge : Edge V}
    (h : edge ∈ s.edgesFrom node) : node ∈ s.edges.sources := by
  unfold edgesFrom EdgeMap.get at h
  cases hlookup : s.edges.entries.lookup node with
  | none => simp [hlookup] at h
  | some edges =>
      obtain ⟨before, after, hentries, _⟩ := List.lookup_eq_some_iff.1 hlookup
      simp [EdgeMap.sources, hentries]

theorem unlistedSource?_eq_none_iff :
    s.unlistedSource? = none ↔ ∀ node, node ∈ s.edges.sources → node ∈ s.nodes :=
  least?_filter_eq_none_iff

theorem unlistedInitial?_eq_none_iff :
    s.unlistedInitial? = none ↔ ∀ node, node ∈ s.initialStates → node ∈ s.nodes :=
  least?_filter_eq_none_iff

theorem unlistedTarget?_eq_none_iff :
    s.unlistedTarget? = none ↔ ∀ node, node ∈ s.nodes →
      ∀ edge, edge ∈ s.edgesFrom node → edge.target ∈ s.nodes := by
  apply findSome?_zipIdx_eq_none_iff 0
  intro node source
  apply findSome?_zipIdx_eq_none_iff 0
  intro edge number
  by_cases h : edge.target ∈ s.nodes <;> simp [h]

theorem validate_eq_ok_iff_checks :
    s.validate = .ok () ↔ firstRepetition? s.nodes = none ∧ s.unlistedSource? = none ∧
      s.unlistedTarget? = none ∧ s.unlistedInitial? = none := by
  unfold validate
  cases firstRepetition? s.nodes <;> cases s.unlistedSource? <;>
    cases s.unlistedTarget? <;> cases s.unlistedInitial? <;> simp

theorem validate_eq_ok_iff : s.validate = .ok () ↔ s.WellFormed := by
  rw [validate_eq_ok_iff_checks, firstRepetition?_eq_none_iff, unlistedSource?_eq_none_iff,
    unlistedTarget?_eq_none_iff, unlistedInitial?_eq_none_iff]
  constructor
  · rintro ⟨hnodup, hsource, htarget, hinitial⟩
    exact {
      nodup := hnodup
      source_mem := fun hmem => hsource _ hmem
      target_mem := fun hmem =>
        htarget _ (hsource _ (mem_sources_of_mem_edgesFrom hmem)) _ hmem
      initial_mem := fun hmem => hinitial _ hmem }
  · intro h
    exact ⟨h.nodup, fun _ hmem => h.source_mem hmem, fun _ _ _ hmem => h.target_mem hmem,
      fun _ hmem => h.initial_mem hmem⟩

/-- A lamp that starts in `Off` and can be switched on. -/
def lamp : KripkeStructure String where
  nodes := [lampNode ⟨"Off", by decide⟩, lampNode ⟨"On", by decide⟩]
  edges := ⟨[(lampNode ⟨"Off", by decide⟩, [⟨lampNode ⟨"On", by decide⟩, .zero⟩])], by simp⟩
  initialStates := [lampNode ⟨"Off", by decide⟩]
  initialStates_nodup := by simp
where
  /-- A node of the lamp, which shows a text that has to be quoted. -/
  lampNode (state : Name) : Node String :=
    ⟨.read, state, true, state, ⟨[(⟨"shown", by decide⟩, "\"it is\"\n")], by simp⟩⟩

theorem lamp_wellFormed : lamp.WellFormed :=
  validate_eq_ok_iff.1 rfl

end KripkeStructure

end WeightedKripke
