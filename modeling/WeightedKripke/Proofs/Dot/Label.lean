import WeightedKripke.Dot.Render
import WeightedKripke.Proofs.Dot.Reader
import WeightedKripke.Proofs.Name.Grammar

/-!
# Labels stay inside their quotation marks

Escaped text, names and the fixed parts of a node label can stand in a string, and
so can the label when its lines are indented, since no backslash stands before a
line break.  Labels of edges hold neither marks, backslashes nor line breaks.
-/

namespace WeightedKripke

namespace Dot

/-! ## Characters of one line -/

/-- Neither a mark, a backslash nor part of a line break. -/
def isInline (c : Char) : Bool :=
  c != '"' && c != '\\' && c != '\n' && c != '\r'

def Inline (text : List Char) : Prop :=
  text.all isInline = true

instance (text : List Char) : Decidable (Inline text) :=
  inferInstanceAs (Decidable (text.all isInline = true))

def Unbroken (text : List Char) : Prop :=
  '\n' ∉ text ∧ '\r' ∉ text

instance (text : List Char) : Decidable (Unbroken text) :=
  inferInstanceAs (Decidable ('\n' ∉ text ∧ '\r' ∉ text))

theorem inline_iff {text : List Char} :
    Inline text ↔ ∀ c, c ∈ text → isInline c = true :=
  List.all_eq_true

theorem ne_of_isInline {c : Char} (h : isInline c = true) : c ≠ '"' ∧ c ≠ '\\' := by
  simp only [isInline, Bool.and_eq_true, bne_iff_ne] at h
  exact ⟨h.1.1.1, h.1.1.2⟩

theorem isInline_of_isNameChar {c : Char} (h : isNameChar c = true) : isInline c = true := by
  simp only [isInline, Bool.and_eq_true, bne_iff_ne]
  refine ⟨⟨⟨?_, ?_⟩, ?_⟩, ?_⟩ <;> rintro rfl <;> exact absurd h (by decide)

theorem isInline_of_isDigit {c : Char} (h : c.isDigit = true) : isInline c = true :=
  isInline_of_isNameChar (by simp [isNameChar, Char.isAlphanum, h])

theorem Inline.append {first second : List Char} (hfirst : Inline first)
    (hsecond : Inline second) : Inline (first ++ second) := by
  rw [Inline, List.all_append, hfirst, hsecond]
  rfl

theorem Inline.cons {c : Char} {text : List Char} (hc : isInline c = true)
    (htext : Inline text) : Inline (c :: text) := by
  rw [Inline, List.all_cons, hc, htext]
  rfl

theorem Inline.quotable {text : List Char} (h : Inline text) : Quotable text :=
  quotable_of_forall fun c hc => ne_of_isInline (inline_iff.1 h c hc)

theorem Inline.unbroken {text : List Char} (h : Inline text) : Unbroken text := by
  constructor
  · intro hfeed
    exact absurd (inline_iff.1 h '\n' hfeed) (by decide)
  · intro hreturn
    exact absurd (inline_iff.1 h '\r' hreturn) (by decide)

theorem Unbroken.append {first second : List Char} (hfirst : Unbroken first)
    (hsecond : Unbroken second) : Unbroken (first ++ second) := by
  unfold Unbroken at *
  simp [hfirst, hsecond]

theorem inline_natText (n : Nat) : Inline (Decimal.natText n) :=
  inline_iff.2 fun _ hc => isInline_of_isDigit (Decimal.isDigit_of_mem_natText hc)

theorem inline_name (name : Name) : Inline name.text.toList :=
  inline_iff.2 fun _ hc => isInline_of_isNameChar (Name.isNameChar_of_mem hc)

theorem inline_intText (i : Int) : Inline (Decimal.intText i) := by
  unfold Decimal.intText
  split
  · exact .cons (by decide) (inline_natText _)
  · exact inline_natText _

theorem isInline_superscript {c : Char} (h : isInline c = true) :
    isInline (Decimal.Scientific.superscript c) = true := by
  unfold Decimal.Scientific.superscript
  split <;> first | decide | exact h

theorem inline_scientificText (coefficient : Nat) (exponent : Int) :
    Inline (Decimal.scientificText coefficient exponent) := by
  unfold Decimal.scientificText
  split
  · exact .cons (by decide) (by decide)
  · generalize hform : Decimal.Scientific.ofScaled coefficient exponent = form
    have hdigits := inline_natText (Decimal.Scientific.roundedDigits coefficient)
    have hwhole : isInline form.whole = true := by
      rw [← hform, Decimal.Scientific.ofScaled]
      cases htext : Decimal.natText (Decimal.Scientific.roundedDigits coefficient) with
      | nil => rfl
      | cons c rest => exact inline_iff.1 hdigits c (by simp [htext])
    have hfraction : Inline form.fraction := by
      refine inline_iff.2 fun c hc => ?_
      rw [← hform, Decimal.Scientific.ofScaled, Decimal.Scientific.dropTrailingZeros,
        List.mem_reverse] at hc
      have hmem := (List.dropWhile_suffix _).mem hc
      rw [List.mem_reverse] at hmem
      exact inline_iff.1 hdigits c (List.mem_of_mem_tail hmem)
    have hpower : Inline ((Decimal.intText form.power).map Decimal.Scientific.superscript) := by
      refine inline_iff.2 fun c hc => ?_
      obtain ⟨d, hd, rfl⟩ := List.mem_map.1 hc
      exact isInline_superscript (inline_iff.1 (inline_intText form.power) d hd)
    have htail : Inline
        ('×' :: '1' :: '0' :: (Decimal.intText form.power).map
          Decimal.Scientific.superscript) :=
      .cons (by decide) (.cons (by decide) (.cons (by decide) hpower))
    unfold Decimal.Scientific.text
    split
    · exact .cons hwhole htail
    · exact .cons hwhole (.cons (by decide) (hfraction.append htail))

theorem inline_label {family : UnitFamily} (hbase : Inline family.base.toList)
    (hunits : ∀ entry, entry ∈ family.units → Inline entry.2.toList)
    (q : ScaledQuantity) : Inline (q.label family) := by
  unfold ScaledQuantity.label
  cases hunit : family.unit? q.exponent with
  | none => exact (inline_scientificText _ _).append (.cons (by decide) hbase)
  | some unit =>
      obtain ⟨before, after, hentries, _⟩ := List.lookup_eq_some_iff.1 hunit
      have hinline := hunits (q.exponent, unit) (by simp [hentries])
      exact (inline_natText _).append (.cons (by decide) hinline)

theorem inline_timeLabel (q : ScaledQuantity) : Inline q.timeLabel :=
  inline_label (by decide) (by decide) q

theorem inline_energyLabel (q : ScaledQuantity) : Inline q.energyLabel :=
  inline_label (by decide) (by decide) q

def costText (cost : Cost) : List Char :=
  "t: ".toList ++ cost.time.rescale.timeLabel ++ ", E: ".toList ++
    cost.energy.rescale.energyLabel

theorem costLabel_eq (cost : Cost) : costLabel cost = '"' :: (costText cost ++ ['"']) :=
  rfl

theorem inline_costText (cost : Cost) : Inline (costText cost) :=
  (((show Inline "t: ".toList by decide).append (inline_timeLabel _)).append
    (show Inline ", E: ".toList by decide)).append (inline_energyLabel _)

/-! ## Node labels -/

theorem quotable_escape (text : List Char) : Quotable (escape text) := by
  induction text with
  | nil => exact .nil
  | cons c rest ih =>
      unfold escape
      by_cases h : c = '"' ∨ c = '\\'
      · rw [if_pos h]
        refine .pair ?_ ih
        rcases h with rfl | rfl <;> decide
      · rw [if_neg h]
        exact .char (not_or.1 h) ih

theorem quotable_line {text : List Char} (h : Quotable text) :
    Quotable ('\n' :: '\\' :: ' ' :: text) :=
  .char (by decide) (.pair (by decide) h)

theorem quotable_nodeHeader {V : Type} (node : Node V) : Quotable (nodeHeader node) := by
  have htitle : Quotable node.phase.title.toList := by
    cases node.phase <;> exact Inline.quotable (by decide)
  have hentry : Quotable (if node.executeOnEntry then "true".toList else "false".toList) := by
    split <;> exact Inline.quotable (by decide)
  have hcurrent := (inline_name node.currentState).quotable
  have hnext := (inline_name node.nextState).quotable
  have hfirst : Quotable "\\ «".toList :=
    .pair (by decide) (.char (by decide) .nil)
  have hsecond : Quotable "»\n\\ ".toList :=
    .char (by decide) (quotable_line .nil)
  have hthird : Quotable "\n\\ executeOnEntry: ".toList :=
    quotable_line (Inline.quotable (by decide))
  have hfourth : Quotable ",\n\\ nextState: ".toList :=
    .char (by decide) (quotable_line (Inline.quotable (by decide)))
  exact ((((((hfirst.append htitle).append hsecond).append hcurrent).append hthird).append
    hentry).append hfourth).append hnext

variable {V : Type} [PropertyValue V]

theorem quotable_propertyLine (entry : Name × V) : Quotable (propertyLine entry) := by
  have hstart : Quotable ",\n\\ ".toList := .char (by decide) (quotable_line .nil)
  have hcolon : Quotable ": ".toList := Inline.quotable (by decide)
  exact ((hstart.append (inline_name entry.1).quotable).append hcolon).append
    (quotable_escape _)

/-- The label of a node can stand in a string, whatever its properties show. -/
theorem quotable_nodeLabel (node : Node V) : Quotable (nodeLabel node) := by
  refine (quotable_nodeHeader node).append ?_
  induction node.properties.entries with
  | nil => exact .nil
  | cons entry rest ih =>
      rw [List.flatMap_cons]
      exact (quotable_propertyLine entry).append ih

/-! ## Indented lines -/

namespace Options

/-- A text with line feeds between its lines, the further ones indented. -/
def relaid (options : Options) : List Char → List Char
  | [] => []
  | '\n' :: rest => '\n' :: (List.replicate options.indent ' ' ++ relaid options rest)
  | '\r' :: '\n' :: rest => '\n' :: (List.replicate options.indent ' ' ++ relaid options rest)
  | c :: rest => c :: relaid options rest

theorem head?_ne_of_no_break {c : Char} {rest : List Char}
    (h : ∀ tail, c = '\r' → rest = '\n' :: tail → False) :
    c = '\r' → rest.head? ≠ some '\n' := by
  intro hc hhead
  cases rest with
  | nil => cases hhead
  | cons d rest =>
      cases hhead
      exact h rest hc rfl

variable (options : Options)

theorem relaid_cons {c : Char} {rest : List Char} (hfeed : c ≠ '\n')
    (hreturn : c = '\r' → rest.head? ≠ some '\n') :
    options.relaid (c :: rest) = c :: options.relaid rest := by
  rw [relaid]
  · exact hfeed
  · rintro tail rfl rfl
    exact hreturn rfl rfl

theorem relaid_append {first second : List Char} (h : second.head? ≠ some '\n') :
    options.relaid (first ++ second) = options.relaid first ++ options.relaid second := by
  induction first using relaid.induct with
  | case1 => rfl
  | case2 rest ih => simp [relaid, ih]
  | case3 rest ih => simp [relaid, ih]
  | case4 c rest hfeed hreturn ih =>
      have hnext := head?_ne_of_no_break hreturn
      have hboth : c = '\r' → (rest ++ second).head? ≠ some '\n' := by
        intro hc
        cases rest with
        | nil => exact h
        | cons d rest => exact hnext hc
      rw [List.cons_append, options.relaid_cons hfeed hboth, options.relaid_cons hfeed hnext, ih,
        List.cons_append]

theorem relaid_unbroken_append {first : List Char} (h : Unbroken first) (second : List Char) :
    options.relaid (first ++ second) = first ++ options.relaid second := by
  induction first with
  | nil => rfl
  | cons c rest ih =>
      have hfeed : c ≠ '\n' := fun heq => h.1 (heq ▸ List.mem_cons_self)
      have hreturn : c ≠ '\r' := fun heq => h.2 (heq ▸ List.mem_cons_self)
      have hrest : Unbroken rest :=
        ⟨fun hmem => h.1 (List.mem_cons_of_mem c hmem),
          fun hmem => h.2 (List.mem_cons_of_mem c hmem)⟩
      rw [List.cons_append, options.relaid_cons hfeed fun heq => absurd heq hreturn, ih hrest,
        List.cons_append]

theorem relaid_of_unbroken {text : List Char} (h : Unbroken text) :
    options.relaid text = text := by
  have happend := options.relaid_unbroken_append h []
  simpa [relaid] using happend

theorem relaid_return {rest : List Char} (h : rest.head? = some '\n') :
    options.relaid ('\r' :: rest) = options.relaid rest := by
  cases rest with
  | nil => cases h
  | cons c rest =>
      cases h
      rfl

theorem quotable_relaid {text : List Char} (h : Quotable text) :
    Quotable (options.relaid text) := by
  induction h with
  | nil => exact .nil
  | pair unbroken more ih =>
      rw [options.relaid_cons (by decide) fun heq => absurd heq (by decide),
        options.relaid_cons unbroken.1 fun heq => absurd heq unbroken.2]
      exact .pair unbroken ih
  | char unmarked more ih =>
      rename_i c rest
      by_cases hfeed : c = '\n'
      · subst hfeed
        have hblanks : Quotable (List.replicate options.indent ' ') :=
          quotable_of_forall fun d hd => by
            rw [List.eq_of_mem_replicate hd]
            decide
        exact .char (by decide) (hblanks.append ih)
      · by_cases hreturn : c = '\r' ∧ rest.head? = some '\n'
        · rw [hreturn.1, options.relaid_return hreturn.2]
          exact ih
        · rw [options.relaid_cons hfeed fun hc hhead => hreturn ⟨hc, hhead⟩]
          exact .char unmarked ih

theorem splitLines_eq_nil {text : List Char} (h : splitLines text = []) : text = [] := by
  cases text with
  | nil => rfl
  | cons c rest =>
      unfold splitLines at h
      split at h
      · assumption
      · cases h
      · cases h
      · split at h <;> cases h

/-- The lines of a statement, each behind a line break and blanks. -/
theorem flatMap_indented_splitLines {text : List Char} (hnil : text ≠ [])
    (hlast : text.getLast? ≠ some '\n') :
    (splitLines text).flatMap options.indented =
      '\n' :: (List.replicate options.indent ' ' ++ options.relaid text) := by
  induction text using splitLines.induct with
  | case1 => exact absurd rfl hnil
  | case2 rest ih =>
      have hrest : rest ≠ [] := by
        rintro rfl
        exact hlast rfl
      rw [List.getLast?_cons_of_ne_nil hrest] at hlast
      simp [splitLines, relaid, indented, ih hrest hlast]
  | case3 rest ih =>
      have hrest : rest ≠ [] := by
        rintro rfl
        exact hlast rfl
      rw [List.getLast?_cons_of_ne_nil (by simp), List.getLast?_cons_of_ne_nil hrest] at hlast
      simp [splitLines, relaid, indented, ih hrest hlast]
  | case4 c rest hfeed hreturn hlines ih =>
      have hrest := splitLines_eq_nil hlines
      subst hrest
      have hsingle : splitLines [c] = [[c]] := by
        rw [splitLines.eq_4 c [] hfeed hreturn, hlines]
      rw [options.relaid_cons hfeed (by simp), hsingle]
      simp [indented, relaid]
  | case5 c rest hfeed hreturn line more hlines ih =>
      have hrest : rest ≠ [] := by
        rintro rfl
        cases hlines
      have hhead := head?_ne_of_no_break hreturn
      rw [List.getLast?_cons_of_ne_nil hrest] at hlast
      have hmore := ih hrest hlast
      rw [hlines, List.flatMap_cons, indented, List.cons_append, List.append_assoc,
        List.cons.injEq, List.append_cancel_left_eq] at hmore
      rw [options.relaid_cons hfeed hhead, splitLines.eq_4 c rest hfeed hreturn, hlines,
        ← hmore.2]
      simp [indented]

end Options

end Dot

end WeightedKripke
