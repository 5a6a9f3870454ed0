import Mathlib.Algebra.Order.BigOperators.Group.List
import Mathlib.Algebra.Order.Group.Nat
import WeightedKripke.Proofs.Dot.NodeLabel
import WeightedKripke.Proofs.Dot.ReadBack

/-!
# Options change the layout only

Without its header, its closing brace and the blanks behind its line breaks a graph
text is its statements, one behind the other, whatever the options are.  A line also
ends at a carriage return before a line feed, so one character of each such pair is
lost: statements come back as they were exactly when no property shows this pair.
-/

namespace WeightedKripke

namespace Dot

/-! ## Blanks behind line feeds -/

def indentLines (width : Nat) (text : List Char) : List Char :=
  text.flatMap fun c => if c = '\n' then '\n' :: List.replicate width ' ' else [c]

/--
Remove `width` blanks behind every line feed, of which the first argument are left to
be removed here.

A line with fewer blanks is refused.
-/
def outdentFrom (width : Nat) : Nat → List Char → Option (List Char)
  | 0, [] => some []
  | _ + 1, [] => none
  | 0, c :: rest => (outdentFrom width (if c = '\n' then width else 0) rest).map (c :: ·)
  | pending + 1, c :: rest => if c = ' ' then outdentFrom width pending rest else none

def outdent (width : Nat) (text : List Char) : Option (List Char) :=
  outdentFrom width 0 text

theorem indentLines_cons (width : Nat) (c : Char) (rest : List Char) :
    indentLines width (c :: rest) =
      (if c = '\n' then '\n' :: List.replicate width ' ' else [c]) ++ indentLines width rest :=
  List.flatMap_cons

theorem indentLines_zero (text : List Char) : indentLines 0 text = text := by
  induction text with
  | nil => rfl
  | cons c rest ih =>
      rw [indentLines_cons, ih]
      by_cases hc : c = '\n' <;> simp [hc]

theorem outdentFrom_blanks (width pending : Nat) (rest : List Char) :
    outdentFrom width pending (List.replicate pending ' ' ++ rest) =
      outdentFrom width 0 rest := by
  induction pending with
  | zero => rfl
  | succ pending ih =>
      rw [List.replicate_succ, List.cons_append, outdentFrom, if_pos rfl, ih]

/-- Blanks that were put behind every line feed can be removed. -/
theorem outdent_indentLines (width : Nat) (text : List Char) :
    outdent width (indentLines width text) = some text := by
  unfold outdent
  induction text with
  | nil => rfl
  | cons c rest ih =>
      rw [indentLines_cons]
      by_cases hc : c = '\n'
      · rw [if_pos hc, hc, List.cons_append, outdentFrom, if_pos rfl, outdentFrom_blanks, ih]
        rfl
      · rw [if_neg hc, List.cons_append, outdentFrom, if_neg hc, List.nil_append, ih]
        rfl

/-! ## Carriage returns before line feeds -/

/-- Drop every carriage return right before a line feed. -/
def withoutReturns : List Char → List Char
  | [] => []
  | '\r' :: '\n' :: rest => '\n' :: withoutReturns rest
  | c :: rest => c :: withoutReturns rest

theorem withoutReturns_cons {c : Char} {rest : List Char}
    (h : c = '\r' → rest.head? ≠ some '\n') :
    withoutReturns (c :: rest) = c :: withoutReturns rest := by
  rw [withoutReturns]
  rintro tail rfl rfl
  exact h rfl rfl

def Returnless (text : List Char) : Prop :=
  '\r' ∉ text

instance (text : List Char) : Decidable (Returnless text) :=
  inferInstanceAs (Decidable ('\r' ∉ text))

theorem Returnless.append {first second : List Char} (hfirst : Returnless first)
    (hsecond : Returnless second) : Returnless (first ++ second) := by
  unfold Returnless at *
  simp [hfirst, hsecond]

theorem Unbroken.returnless {text : List Char} (h : Unbroken text) : Returnless text :=
  h.2

theorem Returnless.withoutReturns_append {first : List Char} (h : Returnless first)
    (second : List Char) : withoutReturns (first ++ second) = first ++ withoutReturns second := by
  induction first with
  | nil => rfl
  | cons c rest ih =>
      have hc : c ≠ '\r' := fun heq => h (heq ▸ List.mem_cons_self)
      have hrest : Returnless rest := fun hmem => h (List.mem_cons_of_mem c hmem)
      rw [List.cons_append, withoutReturns_cons fun heq => absurd heq hc, ih hrest,
        List.cons_append]

theorem Returnless.withoutReturns_eq {text : List Char} (h : Returnless text) :
    withoutReturns text = text := by
  have happend := h.withoutReturns_append []
  simpa [withoutReturns] using happend

/-- Texts without such pairs are kept, and no other ones. -/
theorem withoutReturns_eq_self_iff {text : List Char} :
    withoutReturns text = text ↔ ¬ ['\r', '\n'] <:+: text := by
  induction text using withoutReturns.induct with
  | case1 => simp [withoutReturns]
  | case2 rest ih =>
      have hpair : ['\r', '\n'] <:+: '\r' :: '\n' :: rest := ⟨[], rest, rfl⟩
      simp [withoutReturns, hpair]
  | case3 c rest hpair ih =>
      have hstart : ¬ ['\r', '\n'] <+: c :: rest := by
        rintro ⟨tail, htail⟩
        obtain ⟨rfl, rfl⟩ := List.cons.inj htail
        exact hpair tail rfl rfl
      rw [withoutReturns_cons (Options.head?_ne_of_no_break hpair), List.cons.injEq,
        List.infix_cons_iff]
      simp [ih, hstart]

theorem length_withoutReturns_le (text : List Char) :
    (withoutReturns text).length ≤ text.length := by
  induction text using withoutReturns.induct with
  | case1 => exact Nat.le_refl _
  | case2 rest ih =>
      simp only [withoutReturns, List.length_cons]
      omega
  | case3 c rest hpair ih =>
      rw [withoutReturns_cons (Options.head?_ne_of_no_break hpair), List.length_cons,
        List.length_cons]
      omega

/-- To lay a text out is to drop these returns and to put blanks behind the line feeds. -/
theorem Options.relaid_eq_indentLines (options : Options) (text : List Char) :
    options.relaid text = indentLines options.indent (withoutReturns text) := by
  induction text using relaid.induct with
  | case1 => rfl
  | case2 rest ih =>
      have hfeed : '\n' = '\r' → rest.head? ≠ some '\n' := fun heq => absurd heq (by decide)
      rw [withoutReturns_cons hfeed, indentLines_cons, if_pos rfl, relaid, ih, List.cons_append]
  | case3 rest ih =>
      rw [withoutReturns, indentLines_cons, if_pos rfl, relaid, ih, List.cons_append]
  | case4 c rest hfeed hreturn ih =>
      have hnext := head?_ne_of_no_break hreturn
      rw [options.relaid_cons hfeed hnext, withoutReturns_cons hnext, indentLines_cons,
        if_neg hfeed, ih, List.singleton_append]

theorem withoutReturns_append {first second : List Char} (h : second.head? ≠ some '\n') :
    withoutReturns (first ++ second) = withoutReturns first ++ withoutReturns second := by
  have hflush : ∀ text, withoutReturns text = Options.relaid ⟨0, none⟩ text := by
    intro text
    rw [Options.relaid_eq_indentLines, indentLines_zero]
  simp only [hflush, Options.relaid_append ⟨0, none⟩ h]

/-- Items of which none grows are kept if their concatenation is. -/
theorem forall_eq_of_flatMap_eq {α : Type} {items : List α} {text shorter : α → List Char}
    (hle : ∀ a, a ∈ items → (shorter a).length ≤ (text a).length)
    (h : items.flatMap shorter = items.flatMap text) :
    ∀ a, a ∈ items → shorter a = text a := by
  induction items with
  | nil => simp
  | cons a items ih =>
      have hhead := hle a List.mem_cons_self
      have htail : ∀ b, b ∈ items → (shorter b).length ≤ (text b).length :=
        fun b hb => hle b (List.mem_cons_of_mem a hb)
      have hrest : (items.flatMap shorter).length ≤ (items.flatMap text).length := by
        rw [List.length_flatMap, List.length_flatMap]
        exact List.sum_le_sum htail
      have hlength := congrArg List.length h
      simp only [List.flatMap_cons, List.length_append] at h hlength
      obtain ⟨hfirst, hmore⟩ := List.append_inj h (by omega)
      intro b hb
      rcases List.mem_cons.1 hb with rfl | hb
      · exact hfirst
      · exact ih htail hmore b hb

/-! ## Labels with such pairs -/

theorem withoutReturns_escape (text : List Char) :
    withoutReturns (escape text) = escape (withoutReturns text) := by
  induction text using withoutReturns.induct with
  | case1 => rfl
  | case2 rest ih =>
      rw [escape_cons_of_unmarked (by decide), escape_cons_of_unmarked (by decide), withoutReturns,
        withoutReturns, escape_cons_of_unmarked (by decide), ih]
  | case3 c rest hpair ih =>
      have hnext := Options.head?_ne_of_no_break hpair
      rw [withoutReturns_cons hnext]
      by_cases hc : c = '"' ∨ c = '\\'
      · have hreturn : c ≠ '\r' := by
          rintro rfl
          exact absurd hc (by decide)
        rw [escape_cons_of_marked hc, escape_cons_of_marked hc,
          withoutReturns_cons fun heq => absurd heq (by decide),
          withoutReturns_cons fun heq => absurd heq hreturn, ih]
      · have hescaped : c = '\r' → (escape rest).head? ≠ some '\n' := by
          intro heq hhead
          cases rest with
          | nil => cases hhead
          | cons d rest =>
              by_cases hd : d = '"' ∨ d = '\\'
              · rw [escape_cons_of_marked hd, List.head?_cons, Option.some.injEq] at hhead
                exact absurd hhead (by decide)
              · rw [escape_cons_of_unmarked hd] at hhead
                exact hnext heq hhead
        rw [escape_cons_of_unmarked hc, escape_cons_of_unmarked hc, withoutReturns_cons hescaped,
          ih]

theorem escape_injective {text other : List Char} (h : escape text = escape other) :
    text = other :=
  (escape_append_inj .nil .nil (congrArg (· ++ []) h)).1

theorem returnless_nodeHeader {V : Type} (node : Node V) : Returnless (nodeHeader node) := by
  have htitle : Returnless node.phase.title.toList := by
    cases node.phase <;> decide
  have hentry : Returnless (if node.executeOnEntry then "true".toList else "false".toList) := by
    split <;> decide
  have hcurrent := (inline_name node.currentState).unbroken.returnless
  have hnext := (inline_name node.nextState).unbroken.returnless
  have hfirst : Returnless "\\ «".toList := by decide
  have hsecond : Returnless "»\n\\ ".toList := by decide
  have hthird : Returnless "\n\\ executeOnEntry: ".toList := by decide
  have hfourth : Returnless ",\n\\ nextState: ".toList := by decide
  exact ((((((hfirst.append htitle).append hsecond).append hcurrent).append hthird).append
    hentry).append hfourth).append hnext

section Labels

variable {V : Type} [PropertyValue V]

theorem withoutReturns_propertyLine_eq_self_iff {entry : Name × V} :
    withoutReturns (propertyLine entry) = propertyLine entry ↔
      ¬ ['\r', '\n'] <:+: (PropertyValue.label entry.2).toList := by
  have hbreak : Returnless ",\n\\ ".toList := by decide
  have hstart := (hbreak.append (inline_name entry.1).unbroken.returnless).append
    (by decide : Returnless ": ".toList)
  have hline := hstart.withoutReturns_append (escape (PropertyValue.label entry.2).toList)
  unfold propertyLine
  rw [hline, List.append_right_inj, withoutReturns_escape, ← withoutReturns_eq_self_iff]
  exact ⟨escape_injective, congrArg escape⟩

theorem withoutReturns_lines (entries : List (Name × V)) :
    withoutReturns (entries.flatMap propertyLine) =
      entries.flatMap fun entry => withoutReturns (propertyLine entry) := by
  induction entries with
  | nil => rfl
  | cons entry entries ih =>
      have hnext := (endsProperty_lines entries).head?_ne (by decide : '\n' ≠ ',')
      rw [List.flatMap_cons, withoutReturns_append hnext, ih, List.flatMap_cons]

theorem withoutReturns_nodeLabel_eq_self_iff {node : Node V} :
    withoutReturns (nodeLabel node) = nodeLabel node ↔
      ∀ entry, entry ∈ node.properties.entries →
        ¬ ['\r', '\n'] <:+: (PropertyValue.label entry.2).toList := by
  rw [nodeLabel, (returnless_nodeHeader node).withoutReturns_append,
    List.append_cancel_left_eq, withoutReturns_lines]
  simp only [← withoutReturns_propertyLine_eq_self_iff]
  constructor
  · exact forall_eq_of_flatMap_eq fun entry _ => length_withoutReturns_le _
  · exact List.flatMap_congr

end Labels

/-! ## Statements with such pairs -/

namespace Statement

/-- The label of a record; the quoted labels of edges do not count. -/
def recordLabel? : Statement → Option (List Char)
  | record _ label => some label
  | _ => none

theorem Readable.withoutReturns_text_eq_self_iff {statement : Statement}
    (h : statement.Readable) :
    withoutReturns statement.text = statement.text ↔
      ∀ label, statement.recordLabel? = some label → withoutReturns label = label := by
  cases h with
  | marker id =>
      have hmarker := (unbroken_markerId id).returnless
      have hreturn : Returnless (text (.marker id)) := hmarker.append (by decide)
      simp [hreturn.withoutReturns_eq, recordLabel?]
  | record id quotable =>
      rename_i label
      have hnode := (unbroken_nodeId id).returnless
      have hstart := hnode.append
        (by decide : Returnless " [style=rounded shape=rectangle label=\"".toList)
      have hend : withoutReturns (label ++ "\"]".toList) = withoutReturns label ++ "\"]".toList :=
        withoutReturns_append (by decide)
      rw [text, List.append_assoc, hstart.withoutReturns_append, hend,
        List.append_cancel_left_eq, List.append_cancel_right_eq]
      simp [recordLabel?]
  | start id =>
      have hmarker := (unbroken_markerId id).returnless
      have hreturn : Returnless (text (.start id)) :=
        (hmarker.append (by decide)).append (unbroken_nodeId id).returnless
      simp [hreturn.withoutReturns_eq, recordLabel?]
  | edge source target inline =>
      rename_i label
      have hsource := (unbroken_nodeId source).returnless
      have htarget := (unbroken_nodeId target).returnless
      have hreturn : Returnless (text (.edge source target ('"' :: (label ++ ['"'])))) :=
        ((((hsource.append (by decide)).append htarget).append (by decide)).append
          inline.unbroken_quoted.returnless).append (by decide)
      simp [hreturn.withoutReturns_eq, recordLabel?]

end Statement

/-! ## The text of a graph without its layout -/

def onLines (texts : List (List Char)) : List Char :=
  texts.flatMap ('\n' :: ·)

/-- A graph text without its header, its closing line and the indentation. -/
def Options.unwrap (options : Options) (text : List Char) : Option (List Char) := do
  let body ← options.header.isPrefixOf? text
  let lines ← "\n\x7d".toList.isSuffixOf? body
  outdent options.indent lines

theorem Options.wrap_eq_indentLines (options : Options) (body : List Statement) :
    options.wrap (body.map Statement.text) =
      options.header ++ indentLines options.indent
        (onLines (body.map fun statement => withoutReturns statement.text)) ++
        "\n\x7d".toList := by
  have hlines : ∀ statement : Statement,
      (splitLines statement.text).flatMap options.indented =
        indentLines options.indent ('\n' :: withoutReturns statement.text) := by
    intro statement
    rw [options.flatMap_indented_splitLines statement.text_ne_nil statement.getLast?_text,
      options.relaid_eq_indentLines, indentLines_cons, if_pos rfl, List.cons_append]
  have hbody : ((body.map Statement.text).flatMap splitLines).flatMap options.indented =
      indentLines options.indent
        (onLines (body.map fun statement => withoutReturns statement.text)) := by
    rw [List.flatMap_map, List.flatMap_assoc, onLines, indentLines, List.flatMap_map,
      List.flatMap_assoc]
    exact List.flatMap_congr fun statement _ => hlines statement
  rw [wrap, hbody]

theorem Options.unwrap_wrap (options : Options) (body : List Statement) :
    options.unwrap (options.wrap (body.map Statement.text)) =
      some (onLines (body.map fun statement => withoutReturns statement.text)) := by
  have hheader := List.isPrefixOf?_eq_some_iff_append_eq.2
    ((List.append_assoc _ _ _).symm.trans (options.wrap_eq_indentLines body).symm)
  have hclosing := List.isSuffixOf?_eq_some_iff_append_eq.2
    (rfl : indentLines options.indent
      (onLines (body.map fun statement => withoutReturns statement.text)) ++ "\n\x7d".toList = _)
  simp only [unwrap, hheader, hclosing, bind, Option.bind, outdent_indentLines]

theorem onLines_withoutReturns_eq_iff {body : List Statement} :
    onLines (body.map fun statement => withoutReturns statement.text) =
        onLines (body.map Statement.text) ↔
      ∀ statement, statement ∈ body → withoutReturns statement.text = statement.text := by
  rw [onLines, onLines, List.flatMap_map, List.flatMap_map]
  constructor
  · intro h statement hstatement
    have hcons := forall_eq_of_flatMap_eq (fun other _ => by
      simpa using length_withoutReturns_le (Statement.text other)) h statement hstatement
    exact (List.cons.inj hcons).2
  · intro h
    exact List.flatMap_congr fun statement hstatement => by rw [h statement hstatement]

section Structure

variable {V : Type} [PropertyValue V] {s : KripkeStructure V}

theorem filterMap_recordLabel? (s : KripkeStructure V) :
    (drawing s).filterMap Statement.recordLabel? = s.nodes.map nodeLabel := by
  have hnode : ∀ node id,
      (nodeStatements s node id).filterMap Statement.recordLabel? = [nodeLabel node] := by
    intro node id
    unfold nodeStatements
    split <;> rfl
  have hedges : ∀ node id,
      (edgeStatements s node id).filterMap Statement.recordLabel? = [] := by
    intro node id
    rw [edgeStatements, List.filterMap_map, List.filterMap_eq_nil_iff]
    intro edge _
    rfl
  have hnodes : s.nodes.zipIdx.map (fun entry => nodeLabel entry.1) = s.nodes.map nodeLabel := by
    have hfst := congrArg (List.map nodeLabel) (List.zipIdx_map_fst 0 s.nodes)
    rwa [List.map_map] at hfst
  simp [drawing, List.filterMap_flatMap, hnode, hedges, hnodes, ← List.map_eq_flatMap]

/-- Statements are kept exactly when the labels of the nodes are. -/
theorem withoutReturns_drawing_iff :
    (∀ statement, statement ∈ drawing s → withoutReturns statement.text = statement.text) ↔
      ∀ node, node ∈ s.nodes → ∀ entry, entry ∈ node.properties.entries →
        ¬ ['\r', '\n'] <:+: (PropertyValue.label entry.2).toList := by
  have hlabels : (∀ statement, statement ∈ drawing s →
      withoutReturns statement.text = statement.text) ↔
      ∀ label, label ∈ (drawing s).filterMap Statement.recordLabel? →
        withoutReturns label = label := by
    constructor
    · intro h label hlabel
      obtain ⟨statement, hstatement, heq⟩ := List.mem_filterMap.1 hlabel
      exact (readable_of_mem_drawing hstatement).withoutReturns_text_eq_self_iff.1
        (h statement hstatement) label heq
    · intro h statement hstatement
      refine (readable_of_mem_drawing hstatement).withoutReturns_text_eq_self_iff.2 ?_
      intro label heq
      exact h label (List.mem_filterMap.2 ⟨statement, hstatement, heq⟩)
  rw [hlabels, filterMap_recordLabel?, List.forall_mem_map]
  simp only [withoutReturns_nodeLabel_eq_self_iff]

theorem unwrap_of_render {options : Options} {text : String} (h : render s options = .ok text) :
    options.unwrap text.toList =
      some (onLines ((drawing s).map fun statement => withoutReturns statement.text)) := by
  rw [render, renderText] at h
  cases hbody : statements s with
  | error error =>
      rw [hbody] at h
      cases h
  | ok body =>
      rw [hbody] at h
      cases h
      obtain ⟨-, rfl⟩ := drawable_of_statements hbody
      rw [String.toList_ofList, options.unwrap_wrap]

/--
Without its layout a graph text is its statements, the same for all options, but for
the carriage returns right before a line feed.

So it is exactly its statements, in which every record has the label of its node, if
and only if no property of a node shows a line that ends in such a pair.
-/
theorem unwrap_render {options : Options} {text : String} (h : render s options = .ok text) :
    options.unwrap text.toList =
        some (onLines ((drawing s).map fun statement => withoutReturns statement.text)) ∧
      (options.unwrap text.toList = some (onLines ((drawing s).map Statement.text)) ↔
        ∀ node, node ∈ s.nodes → ∀ entry, entry ∈ node.properties.entries →
          ¬ ['\r', '\n'] <:+: (PropertyValue.label entry.2).toList) ∧
      (drawing s).filterMap Statement.recordLabel? = s.nodes.map nodeLabel := by
  have hunwrap := unwrap_of_render h
  refine ⟨hunwrap, ?_, filterMap_recordLabel? s⟩
  rw [hunwrap, Option.some.injEq, onLines_withoutReturns_eq_iff, withoutReturns_drawing_iff]

end Structure

/-- The lamp shows a line feed without a return, and its statements come back as they were. -/
theorem unwrap_render_lamp :
    ∃ text, render KripkeStructure.lamp ⟨2, some "lamp"⟩ = .ok text ∧
      Options.unwrap ⟨2, some "lamp"⟩ text.toList =
        some (onLines ((drawing KripkeStructure.lamp).map Statement.text)) := by
  obtain ⟨text, htext⟩ := exists_render_of_drawable KripkeStructure.lamp_wellFormed.drawable
    ⟨2, some "lamp"⟩
  have hreturn : ∀ node, node ∈ KripkeStructure.lamp.nodes →
      ∀ entry, entry ∈ node.properties.entries → Returnless entry.2.toList := by decide
  refine ⟨text, htext, (unwrap_render htext).2.1.2 ?_⟩
  intro node hnode entry hentry hpair
  exact hreturn node hnode entry hentry (hpair.subset List.mem_cons_self)

/-- A node with a note of two lines, the first of which ends in both characters. -/
def notedLamp : KripkeStructure String where
  nodes := [⟨.read, ⟨"Idle", by decide⟩, true, ⟨"Idle", by decide⟩,
    ⟨[(⟨"note", by decide⟩, "a\r\nb")], by simp⟩⟩]
  edges := ⟨[], by simp⟩
  initialStates := []
  initialStates_nodup := by simp

/-- Not all texts of graphs hold their statements as they are. -/
theorem not_all_statements_kept :
    ¬ ∀ (s : KripkeStructure String) (options : Options) (text : String),
      render s options = .ok text →
        options.unwrap text.toList = some (onLines ((drawing s).map Statement.text)) := by
  intro hall
  have hdrawable : notedLamp.Drawable :=
    (KripkeStructure.validate_eq_ok_iff.1 rfl : notedLamp.WellFormed).drawable
  obtain ⟨text, htext⟩ := exists_render_of_drawable hdrawable ⟨4, none⟩
  have hkept := hall notedLamp ⟨4, none⟩ text htext
  rw [unwrap_of_render htext, Option.some.injEq, onLines_withoutReturns_eq_iff,
    withoutReturns_drawing_iff] at hkept
  exact absurd hkept (by decide)

end Dot

end WeightedKripke
