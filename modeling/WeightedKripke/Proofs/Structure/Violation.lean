import Mathlib.Data.List.Nodup
import WeightedKripke.Proofs.Structure.Validity

/-!
# The first violation

`FirstViolation` says which violation of a structure is the first one.  A repeated
node comes before all else, at the smallest position that repeats a node; then the
smallest source that is not listed; then the unlisted target at the smallest position
and, among its edges, the smallest number; then the smallest initial node that is not
listed.  Validation reports the first violation and fails for no other reason.

Each search is described by a property that at most one answer has.  That the search
finds an answer with the property, and finds one whenever there is one, determines
its outcome.
-/

namespace WeightedKripke

/-- A sound search that is complete for a property of one value finds this value. -/
theorem eq_some_iff_of_unique {α : Type} {found : Option α} {p : α → Prop}
    (sound : ∀ a, found = some a → p a) (complete : found = none → ∀ a, ¬ p a)
    (unique : ∀ a b, p a → p b → a = b) (a : α) : found = some a ↔ p a := by
  constructor
  · exact sound a
  · intro ha
    cases hfound : found with
    | none => exact absurd ha (complete hfound a)
    | some b => rw [unique a b ha (sound b hfound)]

/-! ## Repetitions -/

section Repetition

variable {α : Type}

/-- The member at the second position also stands at the first one, which is before it. -/
def RepeatsAt (members : List α) (first second : Nat) : Prop :=
  first < second ∧ ∃ a, members[first]? = some a ∧ members[second]? = some a

structure FirstRepetition (members : List α) (first second : Nat) : Prop where
  repeats : RepeatsAt members first second
  earliest : ∀ {i j : Nat}, RepeatsAt members i j → second ≤ j

theorem nodup_iff_not_repeatsAt {members : List α} :
    members.Nodup ↔ ∀ i j, ¬ RepeatsAt members i j := by
  rw [List.nodup_iff_getElem?_ne_getElem?]
  constructor
  · rintro h i j ⟨hlt, a, hi, hj⟩
    have hbound : j < members.length := (List.getElem?_eq_some_iff.1 hj).1
    exact h i j hlt hbound (hi.trans hj.symm)
  · intro h i j hlt hbound heq
    have hj := List.getElem?_eq_getElem hbound
    exact h i j ⟨hlt, members[j], heq.trans hj, hj⟩

namespace FirstRepetition

theorem unique {members : List α} {i j k l : Nat} (h : FirstRepetition members i j)
    (h' : FirstRepetition members k l) : i = k ∧ j = l := by
  have hsecond : j = l := Nat.le_antisymm (h.earliest h'.repeats) (h'.earliest h.repeats)
  subst hsecond
  obtain ⟨hi, a, hfirst, ha⟩ := h.repeats
  obtain ⟨hk, b, hother, hb⟩ := h'.repeats
  have hab : a = b := Option.some.inj (ha.symm.trans hb)
  subst hab
  -- Two earlier occurrences would themselves be a repetition that comes first.
  have hnot : ∀ {m n : Nat}, n < j → m < n → members[m]? = some a →
      members[n]? = some a → False := by
    intro m n hn hmn hm hn'
    have hle := h.earliest ⟨hmn, a, hm, hn'⟩
    omega
  rcases Nat.lt_trichotomy i k with hlt | heq | hgt
  · exact (hnot hk hlt hfirst hother).elim
  · exact ⟨heq, rfl⟩
  · exact (hnot hi hgt hother hfirst).elim

theorem not_nodup {members : List α} {first second : Nat}
    (h : FirstRepetition members first second) : ¬ members.Nodup :=
  fun hnodup => nodup_iff_not_repeatsAt.1 hnodup first second h.repeats

end FirstRepetition

variable [DecidableEq α]

theorem firstRepetition_of_repetitionAfter? {seen members : List α} {first second : Nat}
    (hseen : seen.Nodup) (h : repetitionAfter? seen members = some (first, second)) :
    FirstRepetition (seen ++ members) first second := by
  induction members generalizing seen with
  | nil => cases h
  | cons a rest ih =>
      unfold repetitionAfter? at h
      cases hfirst : seen.idxOf? a with
      | some position =>
          rw [hfirst] at h
          obtain ⟨rfl, rfl⟩ := Prod.mk.inj (Option.some.inj h)
          obtain ⟨hbound, hmember, _⟩ := List.idxOf?_eq_some_iff.1 hfirst
          have hearlier : (seen ++ a :: rest)[position]? = some a := by
            rw [List.getElem?_append_left hbound, List.getElem?_eq_getElem hbound, hmember]
          refine ⟨⟨hbound, a, hearlier, by simp⟩, ?_⟩
          rintro i j ⟨hlt, b, hi, hj⟩
          -- Before this position stand only members that were seen, without repetition.
          apply Nat.le_of_not_lt
          intro hj'
          rw [List.getElem?_append_left (Nat.lt_trans hlt hj')] at hi
          rw [List.getElem?_append_left hj'] at hj
          exact nodup_iff_not_repeatsAt.1 hseen i j ⟨hlt, b, hi, hj⟩
      | none =>
          rw [hfirst] at h
          have hnext : (seen ++ [a]).Nodup := by
            rw [← repetitionAfter?_eq_none_iff hseen, repetitionAfter?, hfirst]
            rfl
          have hrest := ih hnext h
          rwa [List.append_assoc] at hrest

theorem firstRepetition?_eq_some_iff {members : List α} {first second : Nat} :
    firstRepetition? members = some (first, second) ↔ FirstRepetition members first second :=
  eq_some_iff_of_unique (p := fun pair => FirstRepetition members pair.1 pair.2)
    (fun _ h => firstRepetition_of_repetitionAfter? List.nodup_nil h)
    (fun h _ hfound => hfound.not_nodup (firstRepetition?_eq_none_iff.1 h))
    (fun _ _ h h' => Prod.ext (h.unique h').1 (h.unique h').2) (first, second)

end Repetition

/-! ## Smallest members -/

structure LeastUnlisted {α : Type} [Ord α] (listed members : List α) (a : α) : Prop where
  mem : a ∈ members
  unlisted : a ∉ listed
  isLE : ∀ {b : α}, b ∈ members → b ∉ listed → (compare a b).isLE

theorem least?_eq_some_iff {α : Type} [Ord α] [Std.TransOrd α] [Std.LawfulEqOrd α]
    {members : List α} {a : α} :
    least? members = some a ↔ a ∈ members ∧ ∀ b, b ∈ members → (compare a b).isLE := by
  refine eq_some_iff_of_unique
    (p := fun a => a ∈ members ∧ ∀ b, b ∈ members → (compare a b).isLE) ?_ ?_ ?_ a
  · exact fun a h => ⟨least?_mem h, fun b hb => least?_isLE h hb⟩
  · intro h a ha
    rw [least?_eq_none_iff.1 h] at ha
    exact absurd ha.1 List.not_mem_nil
  · rintro a b ⟨ha, hmin⟩ ⟨hb, hmin'⟩
    exact Std.LawfulEqOrd.eq_of_compare
      (Std.OrientedCmp.isLE_antisymm (hmin b hb) (hmin' a ha))

theorem least?_filter_eq_some_iff {α : Type} [Ord α] [Std.TransOrd α] [Std.LawfulEqOrd α]
    [DecidableEq α] {listed members : List α} {a : α} :
    least? (members.filter fun b => decide (b ∉ listed)) = some a ↔
      LeastUnlisted listed members a := by
  rw [least?_eq_some_iff]
  simp only [List.mem_filter, decide_eq_true_eq]
  constructor
  · rintro ⟨⟨hmem, hunlisted⟩, hmin⟩
    exact ⟨hmem, hunlisted, fun hb hb' => hmin _ ⟨hb, hb'⟩⟩
  · intro h
    exact ⟨⟨h.mem, h.unlisted⟩, fun b hb => h.isLE hb.1 hb.2⟩

theorem LeastUnlisted.not_all_listed {α : Type} [Ord α] {listed members : List α} {a : α}
    (h : LeastUnlisted listed members a) : ¬ ∀ b, b ∈ members → b ∈ listed :=
  fun hall => h.unlisted (hall a h.mem)

/-! ## Unlisted targets -/

/-- A search by position finds a member for which all earlier ones gave nothing. -/
theorem exists_of_findSome?_zipIdx {α β : Type} {members : List α} {f : α × Nat → Option β}
    {start : Nat} {b : β} (h : (members.zipIdx start).findSome? f = some b) :
    ∃ i a, members[i]? = some a ∧ f (a, start + i) = some b ∧
      ∀ j c, j < i → members[j]? = some c → f (c, start + j) = none := by
  induction members generalizing start with
  | nil => cases h
  | cons a rest ih =>
      rw [List.zipIdx_cons, List.findSome?_cons] at h
      cases hfirst : f (a, start) with
      | some found =>
          rw [hfirst] at h
          refine ⟨0, a, rfl, hfirst.trans h, ?_⟩
          intro j c hj
          omega
      | none =>
          rw [hfirst] at h
          obtain ⟨i, c, hc, hfound, hbefore⟩ := ih h
          refine ⟨i + 1, c, hc, by rwa [Nat.add_comm i, ← Nat.add_assoc], ?_⟩
          intro j d hj hd
          cases j with
          | zero =>
              cases hd
              exact hfirst
          | succ j =>
              rw [Nat.add_comm j, ← Nat.add_assoc]
              exact hbefore j d (Nat.lt_of_succ_lt_succ hj) hd

namespace KripkeStructure

variable {V : Type} [PropertyValue V] {s : KripkeStructure V}

/-- The edge with a number, of the node at a position, leads to a node that is not listed. -/
def DanglesAt (s : KripkeStructure V) (source number : Nat) (target : Node V) : Prop :=
  ∃ node edge, s.nodes[source]? = some node ∧ (s.edgesFrom node)[number]? = some edge ∧
    edge.target = target ∧ target ∉ s.nodes

structure FirstDangling (s : KripkeStructure V) (source number : Nat) (target : Node V) :
    Prop where
  dangles : s.DanglesAt source number target
  earliest : ∀ {i j : Nat} {other : Node V}, s.DanglesAt i j other →
    source < i ∨ source = i ∧ number ≤ j

namespace DanglesAt

theorem target_eq {source number : Nat} {target other : Node V}
    (h : s.DanglesAt source number target) (h' : s.DanglesAt source number other) :
    target = other := by
  obtain ⟨node, edge, hnode, hedge, rfl, _⟩ := h
  obtain ⟨node', edge', hnode', hedge', rfl, _⟩ := h'
  cases hnode.symm.trans hnode'
  cases hedge.symm.trans hedge'
  rfl

theorem not_all_listed {source number : Nat} {target : Node V}
    (h : s.DanglesAt source number target) :
    ¬ ∀ node, node ∈ s.nodes → ∀ edge, edge ∈ s.edgesFrom node →
      edge.target ∈ s.nodes := by
  obtain ⟨node, edge, hnode, hedge, rfl, hunlisted⟩ := h
  intro hall
  exact hunlisted
    (hall node (List.mem_of_getElem? hnode) edge (List.mem_of_getElem? hedge))

end DanglesAt

theorem FirstDangling.unique {i j k l : Nat} {target other : Node V}
    (h : s.FirstDangling i j target) (h' : s.FirstDangling k l other) :
    i = k ∧ j = l ∧ target = other := by
  have hle := h.earliest h'.dangles
  have hge := h'.earliest h.dangles
  have hsource : i = k := by omega
  have hnumber : j = l := by omega
  subst hsource hnumber
  exact ⟨rfl, rfl, h.dangles.target_eq h'.dangles⟩

theorem firstDangling_of_unlistedTarget? {source number : Nat} {target : Node V}
    (h : s.unlistedTarget? = some (source, number, target)) :
    s.FirstDangling source number target := by
  obtain ⟨i, node, hnode, hfound, hnodes⟩ := exists_of_findSome?_zipIdx h
  rw [Nat.zero_add] at hfound
  obtain ⟨j, edge, hedge, hunlisted, hedges⟩ := exists_of_findSome?_zipIdx hfound
  rw [Nat.zero_add] at hunlisted
  have hmem : edge.target ∉ s.nodes := by
    intro hmem
    simp [hmem] at hunlisted
  simp only [if_neg hmem, Option.some.injEq, Prod.mk.injEq] at hunlisted
  obtain ⟨rfl, rfl, rfl⟩ := hunlisted
  refine ⟨⟨node, edge, hnode, hedge, rfl, hmem⟩, ?_⟩
  rintro k l other ⟨node', edge', hnode', hedge', rfl, hmem'⟩
  rcases Nat.lt_trichotomy i k with hlt | heq | hgt
  · exact Or.inl hlt
  · subst heq
    cases hnode.symm.trans hnode'
    refine Or.inr ⟨rfl, Nat.le_of_not_lt ?_⟩
    intro hbefore
    have hnone := hedges l edge' hbefore hedge'
    simp [hmem'] at hnone
  · -- The node is an earlier one, so the search went through all its edges.
    have hnone := List.findSome?_eq_none_iff.1 (hnodes k node' hgt hnode') (edge', l)
      (List.mem_zipIdx_iff_getElem?.2 hedge')
    simp [hmem'] at hnone

theorem unlistedTarget?_eq_some_iff {source number : Nat} {target : Node V} :
    s.unlistedTarget? = some (source, number, target) ↔
      s.FirstDangling source number target :=
  eq_some_iff_of_unique (p := fun found => s.FirstDangling found.1 found.2.1 found.2.2)
    (fun _ h => firstDangling_of_unlistedTarget? h)
    (fun h _ hfound => hfound.dangles.not_all_listed (unlistedTarget?_eq_none_iff.1 h))
    (fun _ _ h h' => by
      obtain ⟨hsource, hnumber, htarget⟩ := h.unique h'
      exact Prod.ext hsource (Prod.ext hnumber htarget))
    (source, number, target)

/-! ## The order of the checks -/

theorem unlistedSource?_eq_some_iff {node : Node V} :
    s.unlistedSource? = some node ↔ LeastUnlisted s.nodes s.edges.sources node :=
  least?_filter_eq_some_iff

theorem unlistedInitial?_eq_some_iff {node : Node V} :
    s.unlistedInitial? = some node ↔ LeastUnlisted s.nodes s.initialStates node :=
  least?_filter_eq_some_iff

/-- The violation that is met first: nodes, then sources, targets, and initial nodes. -/
inductive FirstViolation (s : KripkeStructure V) : GraphError V → Prop where
  | duplicateNode {first second : Nat} (found : FirstRepetition s.nodes first second) :
      FirstViolation s (.duplicateNode first second)
  | missingEdgeSource {node : Node V} (nodup : s.nodes.Nodup)
      (found : LeastUnlisted s.nodes s.edges.sources node) :
      FirstViolation s (.missingEdgeSource node)
  | missingEdgeTarget {source edge : Nat} {node : Node V} (nodup : s.nodes.Nodup)
      (sources : ∀ node, node ∈ s.edges.sources → node ∈ s.nodes)
      (found : s.FirstDangling source edge node) :
      FirstViolation s (.missingEdgeTarget source edge node)
  | missingInitialState {node : Node V} (nodup : s.nodes.Nodup)
      (sources : ∀ node, node ∈ s.edges.sources → node ∈ s.nodes)
      (targets : ∀ node, node ∈ s.nodes → ∀ edge, edge ∈ s.edgesFrom node →
        edge.target ∈ s.nodes)
      (found : LeastUnlisted s.nodes s.initialStates node) :
      FirstViolation s (.missingInitialState node)

theorem firstViolation_of_validate {error : GraphError V} (h : s.validate = .error error) :
    s.FirstViolation error := by
  unfold validate at h
  cases hnodes : firstRepetition? s.nodes with
  | some pair =>
      rw [hnodes] at h
      cases h
      exact .duplicateNode (firstRepetition?_eq_some_iff.1 hnodes)
  | none =>
      have hnodup := firstRepetition?_eq_none_iff.1 hnodes
      cases hsources : s.unlistedSource? with
      | some node =>
          simp only [hnodes, hsources] at h
          cases h
          exact .missingEdgeSource hnodup (unlistedSource?_eq_some_iff.1 hsources)
      | none =>
          have hlisted := unlistedSource?_eq_none_iff.1 hsources
          cases htargets : s.unlistedTarget? with
          | some found =>
              simp only [hnodes, hsources, htargets] at h
              cases h
              exact .missingEdgeTarget hnodup hlisted (unlistedTarget?_eq_some_iff.1 htargets)
          | none =>
              have hreached := unlistedTarget?_eq_none_iff.1 htargets
              cases hinitial : s.unlistedInitial? with
              | some node =>
                  simp only [hnodes, hsources, htargets, hinitial] at h
                  cases h
                  exact .missingInitialState hnodup hlisted hreached
                    (unlistedInitial?_eq_some_iff.1 hinitial)
              | none =>
                  simp only [hnodes, hsources, htargets, hinitial] at h
                  cases h

theorem validate_of_firstViolation {error : GraphError V} (h : s.FirstViolation error) :
    s.validate = .error error := by
  unfold validate
  cases h with
  | duplicateNode found =>
      rw [firstRepetition?_eq_some_iff.2 found]
  | missingEdgeSource nodup found =>
      rw [firstRepetition?_eq_none_iff.2 nodup, unlistedSource?_eq_some_iff.2 found]
  | missingEdgeTarget nodup sources found =>
      rw [firstRepetition?_eq_none_iff.2 nodup, unlistedSource?_eq_none_iff.2 sources,
        unlistedTarget?_eq_some_iff.2 found]
  | missingInitialState nodup sources targets found =>
      rw [firstRepetition?_eq_none_iff.2 nodup, unlistedSource?_eq_none_iff.2 sources,
        unlistedTarget?_eq_none_iff.2 targets, unlistedInitial?_eq_some_iff.2 found]

theorem validate_eq_error_iff {error : GraphError V} :
    s.validate = .error error ↔ s.FirstViolation error :=
  ⟨firstViolation_of_validate, validate_of_firstViolation⟩

/--
Validation succeeds exactly on well-formed structures, and an error that it reports is
the first violation.
-/
theorem validate_reports_first_violation (s : KripkeStructure V) :
    (s.validate = .ok () ↔ s.WellFormed) ∧
      ∀ error, s.validate = .error error ↔ s.FirstViolation error :=
  ⟨validate_eq_ok_iff, fun _ => validate_eq_error_iff⟩

namespace brokenLamp

def lost : Node String :=
  lamp.lampNode ⟨"Lost", by decide⟩

def broken : Node String :=
  lamp.lampNode ⟨"Broken", by decide⟩

end brokenLamp

open brokenLamp in
/--
A lamp that violates three rules, two of them twice: `lost` and `broken` are sources
and initial nodes without being listed, and the edge of the lamp leads to `broken`.
-/
def brokenLamp : KripkeStructure String where
  nodes := lamp.nodes
  edges :=
    { entries := (lost, [⟨lost, .zero⟩]) ::
        (lamp.edges.entries.map fun entry => (entry.1, [⟨broken, .zero⟩])) ++ [(broken, [])]
      nodup := firstRepetition?_eq_none_iff.1 rfl }
  initialStates := [lost, broken]
  initialStates_nodup := firstRepetition?_eq_none_iff.1 rfl

example : brokenLamp.validate = .error (.missingEdgeSource brokenLamp.broken) := rfl

end KripkeStructure

end WeightedKripke
