import Mathlib.Data.List.TakeDrop
import WeightedKripke.Dot.Label
import WeightedKripke.Proofs.Name.Grammar

/-!
# Labels tell nodes apart

A label is taken apart from the left.  Names end where something else than a character
of a name follows.  The text of a property ends at the line of the next one: escaping
puts a mark or a backslash behind every backslash, so no property text contains the
backslash and space that start a line, whatever else it holds.  Labels are equal exactly
for nodes that agree in all that is shown.
-/

namespace WeightedKripke

namespace Dot

/-! ## Names in front of other text -/

def EndsName (text : List Char) : Prop :=
  ∀ c, text.head? = some c → isNameChar c = false

theorem endsName_nil : EndsName [] := by
  intro c hc
  cases hc

theorem endsName_append {first : List Char} (h : first.head?.map isNameChar = some false)
    (rest : List Char) : EndsName (first ++ rest) := by
  intro c hc
  cases first with
  | nil => cases h
  | cons d first =>
      cases hc
      exact Option.some.inj h

theorem takeWhile_name_append (name : Name) {rest : List Char} (h : EndsName rest) :
    (name.text.toList ++ rest).takeWhile isNameChar = name.text.toList := by
  have hstop : rest.takeWhile isNameChar = [] := by
    cases rest with
    | nil => rfl
    | cons c rest => simp [h c rfl]
  rw [List.takeWhile_append_of_pos fun _ hc => Name.isNameChar_of_mem hc, hstop,
    List.append_nil]

theorem name_append_inj {a b : Name} {rest more : List Char} (hrest : EndsName rest)
    (hmore : EndsName more) (h : a.text.toList ++ rest = b.text.toList ++ more) :
    a = b ∧ rest = more := by
  have htext : a.text.toList = b.text.toList := by
    rw [← takeWhile_name_append a hrest, h, takeWhile_name_append b hmore]
  rw [htext] at h
  exact ⟨Name.ext (String.toList_injective htext), List.append_cancel_left h⟩

/-! ## Property texts in front of other lines -/

/-- What can stand behind the text of a property: nothing, or one more line. -/
inductive EndsProperty : List Char → Prop where
  | nil : EndsProperty []
  | line (rest : List Char) : EndsProperty (',' :: '\n' :: '\\' :: ' ' :: rest)

theorem EndsProperty.head?_ne {text : List Char} (h : EndsProperty text) {c : Char}
    (hc : c ≠ ',') : text.head? ≠ some c := by
  cases h with
  | nil => simp
  | line rest => simpa using hc.symm

theorem escape_cons_of_marked {c : Char} (h : c = '"' ∨ c = '\\') (text : List Char) :
    escape (c :: text) = '\\' :: c :: escape text := by
  rw [escape, if_pos h]

theorem escape_cons_of_unmarked {c : Char} (h : ¬ (c = '"' ∨ c = '\\')) (text : List Char) :
    escape (c :: text) = c :: escape text := by
  rw [escape, if_neg h]

/-- A character that is not escaped stands for itself. -/
theorem escape_cons_append_eq_cons {c d : Char} {text rest more : List Char}
    (hd : ¬ (d = '"' ∨ d = '\\')) (h : escape (c :: text) ++ rest = d :: more) :
    c = d ∧ escape text ++ rest = more := by
  by_cases hc : c = '"' ∨ c = '\\'
  · rw [escape_cons_of_marked hc, List.cons_append, List.cons.injEq] at h
    exact absurd (Or.inr h.1.symm) hd
  · rw [escape_cons_of_unmarked hc, List.cons_append, List.cons.injEq] at h
    exact h

/-- A backslash in an escaped text has a mark or a backslash behind it. -/
theorem marked_of_escape_append {c : Char} {text rest more : List Char}
    (hrest : rest.head? ≠ some '\\') (h : escape text ++ rest = '\\' :: c :: more) :
    c = '"' ∨ c = '\\' := by
  cases text with
  | nil =>
      rw [escape_nil, List.nil_append] at h
      rw [h] at hrest
      exact absurd rfl hrest
  | cons d text =>
      by_cases hd : d = '"' ∨ d = '\\'
      · rw [escape_cons_of_marked hd, List.cons_append, List.cons_append, List.cons.injEq,
          List.cons.injEq] at h
        rw [← h.2.1]
        exact hd
      · rw [escape_cons_of_unmarked hd, List.cons_append, List.cons.injEq] at h
        exact absurd (Or.inr h.1) hd

/-- No property text begins like the line of the next property. -/
theorem not_endsProperty_escape {c : Char} {text rest : List Char} (hrest : EndsProperty rest) :
    ¬ EndsProperty (escape (c :: text) ++ rest) := by
  intro h
  generalize hline : escape (c :: text) ++ rest = line at h
  cases h with
  | nil =>
      by_cases hc : c = '"' ∨ c = '\\'
      · rw [escape_cons_of_marked hc] at hline
        cases hline
      · rw [escape_cons_of_unmarked hc] at hline
        cases hline
  | line more =>
      obtain ⟨-, hbreak⟩ := escape_cons_append_eq_cons (by decide) hline
      cases text with
      | nil =>
          rw [escape_nil, List.nil_append] at hbreak
          exact hrest.head?_ne (by decide) (congrArg List.head? hbreak)
      | cons d text =>
          obtain ⟨-, hslash⟩ := escape_cons_append_eq_cons (by decide) hbreak
          have hspace := marked_of_escape_append (hrest.head?_ne (by decide)) hslash
          exact absurd hspace (by decide)

theorem escape_append_inj {text other rest more : List Char} (hrest : EndsProperty rest)
    (hmore : EndsProperty more) (h : escape text ++ rest = escape other ++ more) :
    text = other ∧ rest = more := by
  induction text generalizing other with
  | nil =>
      cases other with
      | nil => exact ⟨rfl, h⟩
      | cons d other =>
          rw [escape_nil, List.nil_append] at h
          rw [h] at hrest
          exact absurd hrest (not_endsProperty_escape hmore)
  | cons c text ih =>
      cases other with
      | nil =>
          rw [escape_nil, List.nil_append] at h
          rw [← h] at hmore
          exact absurd hmore (not_endsProperty_escape hrest)
      | cons d other =>
          by_cases hd : d = '"' ∨ d = '\\'
          · rw [escape_cons_of_marked hd, List.cons_append, List.cons_append] at h
            by_cases hc : c = '"' ∨ c = '\\'
            · rw [escape_cons_of_marked hc, List.cons_append, List.cons_append,
                List.cons.injEq, List.cons.injEq] at h
              obtain ⟨htext, hends⟩ := ih h.2.2
              exact ⟨by rw [h.2.1, htext], hends⟩
            · rw [escape_cons_of_unmarked hc, List.cons_append, List.cons.injEq] at h
              exact absurd (Or.inr h.1) hc
          · rw [escape_cons_of_unmarked hd, List.cons_append] at h
            obtain ⟨hhead, htail⟩ := escape_cons_append_eq_cons hd h
            obtain ⟨htext, hends⟩ := ih htail
            exact ⟨by rw [hhead, htext], hends⟩

/-! ## Property lines -/

section Properties

variable {V : Type} [PropertyValue V]

theorem endsProperty_lines (entries : List (Name × V)) :
    EndsProperty (entries.flatMap propertyLine) := by
  cases entries with
  | nil => exact .nil
  | cons entry entries => exact .line _

theorem endsName_lines (entries : List (Name × V)) :
    EndsName (entries.flatMap propertyLine) := by
  cases entries with
  | nil => exact endsName_nil
  | cons entry entries =>
      unfold propertyLine
      simp only [List.flatMap_cons, List.append_assoc]
      exact endsName_append (by decide) _

/-- What a property line shows: the name and the text of the value. -/
def shown (entry : Name × V) : Name × String :=
  (entry.1, PropertyValue.label entry.2)

theorem propertyLine_eq_of_shown {entry other : Name × V} (h : shown entry = shown other) :
    propertyLine entry = propertyLine other := by
  obtain ⟨hname, htext⟩ := Prod.mk.inj h
  unfold propertyLine
  rw [hname, htext]

theorem lines_cons_ne_nil (entry : Name × V) (entries : List (Name × V)) :
    (entry :: entries).flatMap propertyLine ≠ [] := by
  unfold propertyLine
  simp

theorem propertyLine_append_inj {entry other : Name × V} {rest more : List Char}
    (hrest : EndsProperty rest) (hmore : EndsProperty more)
    (h : propertyLine entry ++ rest = propertyLine other ++ more) :
    shown entry = shown other ∧ rest = more := by
  unfold propertyLine at h
  simp only [List.append_assoc] at h
  obtain ⟨hname, htail⟩ := name_append_inj (endsName_append (by decide) _)
    (endsName_append (by decide) _) (List.append_cancel_left h)
  obtain ⟨htext, hends⟩ := escape_append_inj hrest hmore (List.append_cancel_left htail)
  exact ⟨Prod.ext hname (String.toList_injective htext), hends⟩

theorem lines_eq_iff {entries others : List (Name × V)} :
    entries.flatMap propertyLine = others.flatMap propertyLine ↔
      entries.map shown = others.map shown := by
  constructor
  · intro h
    induction entries generalizing others with
    | nil =>
        cases others with
        | nil => rfl
        | cons other others => exact absurd h.symm (lines_cons_ne_nil other others)
    | cons entry entries ih =>
        cases others with
        | nil => exact absurd h (lines_cons_ne_nil entry entries)
        | cons other others =>
            rw [List.flatMap_cons, List.flatMap_cons] at h
            obtain ⟨hentry, hlines⟩ :=
              propertyLine_append_inj (endsProperty_lines entries) (endsProperty_lines others) h
            rw [List.map_cons, List.map_cons, hentry, ih hlines]
  · intro h
    induction entries generalizing others with
    | nil => rw [List.map_eq_nil_iff.1 h.symm]
    | cons entry entries ih =>
        cases others with
        | nil => cases h
        | cons other others =>
            rw [List.map_cons, List.map_cons, List.cons.injEq] at h
            rw [List.flatMap_cons, List.flatMap_cons, propertyLine_eq_of_shown h.1, ih h.2]

end Properties

/-! ## Headers -/

theorem title_append_inj {p q : Phase} {rest more : List Char}
    (h : p.title.toList ++ rest = q.title.toList ++ more) : p = q ∧ rest = more := by
  cases p <;> cases q <;> simp_all [Phase.title]

theorem flag_append_inj {a b : Bool} {rest more : List Char}
    (h : (if a then "true".toList else "false".toList) ++ rest =
      (if b then "true".toList else "false".toList) ++ more) : a = b ∧ rest = more := by
  cases a <;> cases b <;> simp_all

structure SameHeader {V : Type} (a b : Node V) : Prop where
  phase : a.phase = b.phase
  currentState : a.currentState = b.currentState
  executeOnEntry : a.executeOnEntry = b.executeOnEntry
  nextState : a.nextState = b.nextState

theorem SameHeader.header_eq {V : Type} {a b : Node V} (h : SameHeader a b) :
    nodeHeader a = nodeHeader b := by
  unfold nodeHeader
  simp only [h.phase, h.currentState, h.executeOnEntry, h.nextState]

theorem header_append_inj {V : Type} {a b : Node V} {rest more : List Char}
    (hrest : EndsName rest) (hmore : EndsName more)
    (h : nodeHeader a ++ rest = nodeHeader b ++ more) : SameHeader a b ∧ rest = more := by
  unfold nodeHeader at h
  simp only [List.append_assoc] at h
  obtain ⟨hphase, h⟩ := title_append_inj (List.append_cancel_left h)
  obtain ⟨hcurrent, h⟩ := name_append_inj (endsName_append (by decide) _)
    (endsName_append (by decide) _) (List.append_cancel_left h)
  obtain ⟨hentry, h⟩ := flag_append_inj (List.append_cancel_left h)
  obtain ⟨hnext, h⟩ := name_append_inj hrest hmore (List.append_cancel_left h)
  exact ⟨⟨hphase, hcurrent, hentry, hnext⟩, h⟩

theorem nodeLabel_eq_iff_same {V : Type} [PropertyValue V] {a b : Node V} :
    nodeLabel a = nodeLabel b ↔
      SameHeader a b ∧ a.properties.entries.map shown = b.properties.entries.map shown := by
  rw [← lines_eq_iff]
  constructor
  · intro h
    exact header_append_inj (endsName_lines _) (endsName_lines _) h
  · rintro ⟨hheader, hlines⟩
    rw [nodeLabel, nodeLabel, hheader.header_eq, hlines]

theorem map_shown_string (entries : List (Name × String)) : entries.map shown = entries :=
  List.map_id entries

theorem eq_of_nodeLabel_eq {a b : Node String} (h : nodeLabel a = nodeLabel b) : a = b := by
  obtain ⟨hheader, hshown⟩ := nodeLabel_eq_iff_same.1 h
  rw [map_shown_string, map_shown_string] at hshown
  exact Node.ext hheader.phase hheader.currentState hheader.executeOnEntry hheader.nextState
    (SortedMap.ext_entries hshown)

/--
Labels are equal exactly for nodes with the same phase, states and entry flag and the
same names and texts of their properties.

Nodes with texts as properties are determined by their labels.
-/
theorem nodeLabel_unambiguous :
    (∀ (V : Type) [PropertyValue V] (a b : Node V),
      nodeLabel a = nodeLabel b ↔
        SameHeader a b ∧ a.properties.entries.map shown = b.properties.entries.map shown) ∧
      ∀ a b : Node String, nodeLabel a = nodeLabel b ↔ a = b :=
  ⟨fun _ _ _ _ => nodeLabel_eq_iff_same,
    fun _ _ => ⟨eq_of_nodeLabel_eq, congrArg nodeLabel⟩⟩

end Dot

end WeightedKripke
