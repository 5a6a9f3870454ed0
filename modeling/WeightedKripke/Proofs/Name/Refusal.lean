import WeightedKripke.Proofs.Name.Grammar

/-!
# Names and the reasons for refusal

The check of a name accepts the grammar of names and nothing else: the words of an
identifier hold no underscore, and every underscore stands in front of one of them.
`RefusedFor` lists the four reasons for which other texts are refused, each of them
under the condition that no earlier one applies.
-/

namespace WeightedKripke

/-! ## Identifiers pass the check -/

theorem isNameChar_of_isAlphanum {c : Char} (h : c.isAlphanum = true) : isNameChar c = true := by
  rw [isNameChar, h, Bool.true_or]

theorem isNameChar_of_isAlpha {c : Char} (h : c.isAlpha = true) : isNameChar c = true :=
  isNameChar_of_isAlphanum (by rw [Char.isAlphanum, h, Bool.true_or])

theorem ne_underscore_of_isAlphanum {c : Char} (h : c.isAlphanum = true) : c ≠ '_' := by
  rintro rfl
  exact absurd h (by decide)

/-- The scan finds an underscore at the end, or two in a row. -/
theorem hasLooseUnderscore_iff {characters : List Char} :
    hasLooseUnderscore characters = true ↔
      characters.getLast? = some '_' ∨ ['_', '_'] <:+: characters := by
  induction characters with
  | nil => simp [hasLooseUnderscore]
  | cons c rest ih =>
      cases rest with
      | nil => simp [hasLooseUnderscore, List.infix_cons_iff]
      | cons d rest =>
          have hinfix : ['_', '_'] <:+: c :: d :: rest ↔
              (c = '_' ∧ d = '_') ∨ ['_', '_'] <:+: d :: rest := by
            rw [List.infix_cons_iff]
            simp [List.cons_prefix_cons, eq_comm]
          rw [hasLooseUnderscore, Bool.or_eq_true, ih, hinfix, List.getLast?_cons_cons]
          simp only [Bool.and_eq_true, beq_iff_eq]
          exact or_left_comm

theorem hasLooseUnderscore_cons {c : Char} (hc : c ≠ '_') (rest : List Char) :
    hasLooseUnderscore (c :: rest) = hasLooseUnderscore rest := by
  cases rest <;> simp [hasLooseUnderscore, hc]

theorem hasLooseUnderscore_word_append {word : List Char} (hword : IsWord word)
    (rest : List Char) : hasLooseUnderscore (word ++ rest) = hasLooseUnderscore rest := by
  induction word with
  | nil => rfl
  | cons c word ih =>
      have hc := ne_underscore_of_isAlphanum (hword c List.mem_cons_self)
      have htail : IsWord word := fun d hd => hword d (List.mem_cons_of_mem c hd)
      rw [List.cons_append, hasLooseUnderscore_cons hc, ih htail]

theorem hasLooseUnderscore_underscored {groups : List (List Char)}
    (h : ∀ group, group ∈ groups → group ≠ [] ∧ IsWord group) :
    hasLooseUnderscore (underscored groups) = false := by
  induction groups with
  | nil => rfl
  | cons group groups ih =>
      obtain ⟨hnonempty, hword⟩ := h group List.mem_cons_self
      have hrest := ih fun other hother => h other (List.mem_cons_of_mem group hother)
      have happend := hasLooseUnderscore_word_append hword (underscored groups)
      rw [underscored, List.flatMap_cons, List.cons_append, ← underscored]
      cases group with
      | nil => exact absurd rfl hnonempty
      | cons c group =>
          have hc := ne_underscore_of_isAlphanum (hword c List.mem_cons_self)
          rw [List.cons_append] at happend ⊢
          rw [hasLooseUnderscore, happend, hrest]
          simpa using hc

theorem isNameChar_of_mem_underscored {groups : List (List Char)}
    (h : ∀ group, group ∈ groups → group ≠ [] ∧ IsWord group) {c : Char}
    (hc : c ∈ underscored groups) : isNameChar c = true := by
  obtain ⟨group, hgroup, hc⟩ := List.mem_flatMap.1 hc
  rcases List.mem_cons.1 hc with rfl | hc
  · rfl
  · exact isNameChar_of_isAlphanum ((h group hgroup).2 c hc)

theorem nameFault?_of_isIdentifier {text : String} (h : IsIdentifier text.toList) :
    nameFault? text = none := by
  obtain ⟨letter, word, groups, htext, hletter, hword, hgroups⟩ := h
  have hnone : (word ++ underscored groups).find? (fun c => !isNameChar c) = none := by
    rw [List.find?_eq_none]
    intro c hc
    have hname : isNameChar c = true := by
      rcases List.mem_append.1 hc with hc | hc
      · exact isNameChar_of_isAlphanum (hword c hc)
      · exact isNameChar_of_mem_underscored hgroups hc
    simp [hname]
  have hloose : hasLooseUnderscore (word ++ underscored groups) = false := by
    rw [hasLooseUnderscore_word_append hword, hasLooseUnderscore_underscored hgroups]
  simp [nameFault?, htext, hletter, hnone, hloose]

theorem nameFault?_eq_none_iff {text : String} :
    nameFault? text = none ↔ IsIdentifier text.toList :=
  ⟨isIdentifier_of_nameFault?, nameFault?_of_isIdentifier⟩

/-! ## Reasons for refusal -/

def StartsWithLetter (text : String) : Prop :=
  ∃ letter rest, text.toList = letter :: rest ∧ letter.isAlpha = true

/-- The reason for which a text is not a name: of several ones the first of this list. -/
inductive RefusedFor (text : String) : NameError → Prop where
  | empty (nothing : text.toList = []) : RefusedFor text .empty
  | invalidStart {first : Char} {rest : List Char} (start : text.toList = first :: rest)
      (noLetter : first.isAlpha = false) : RefusedFor text (.invalidStart text)
  /-- The character is the earliest one that names do not hold. -/
  | invalidCharacter {before after : List Char} {c : Char} (start : StartsWithLetter text)
      (found : text.toList = before ++ c :: after)
      (earliest : ∀ d, d ∈ before → isNameChar d = true) (foreign : isNameChar c = false) :
      RefusedFor text (.invalidCharacter text c)
  /-- Nothing but the place of an underscore is left to be at fault. -/
  | invalidUnderscore (start : StartsWithLetter text)
      (characters : ∀ c, c ∈ text.toList → isNameChar c = true)
      (ungrammatical : ¬ IsIdentifier text.toList) : RefusedFor text (.invalidUnderscore text)

/-- Characters up to the first one that names do not hold are searched behind the letter. -/
theorem find?_foreign {letter : Char} {rest before after : List Char} {c : Char}
    (hletter : letter.isAlpha = true) (hfound : letter :: rest = before ++ c :: after)
    (hbefore : ∀ d, d ∈ before → isNameChar d = true) (hc : isNameChar c = false) :
    rest.find? (fun d => !isNameChar d) = some c := by
  cases before with
  | nil =>
      obtain ⟨rfl, -⟩ := List.cons.inj hfound
      rw [isNameChar_of_isAlpha hletter] at hc
      cases hc
  | cons first before =>
      obtain ⟨-, rfl⟩ := List.cons.inj hfound
      refine List.find?_eq_some_iff_append.2 ⟨by simp [hc], before, after, rfl, ?_⟩
      intro d hd
      simp [hbefore d (List.mem_cons_of_mem first hd)]

theorem nameFault?_of_isNameChar {text : String} (start : StartsWithLetter text)
    (characters : ∀ c, c ∈ text.toList → isNameChar c = true) :
    nameFault? text =
      if hasLooseUnderscore text.toList then some (.invalidUnderscore text) else none := by
  obtain ⟨letter, rest, htext, hletter⟩ := start
  have hne : letter ≠ '_' := by
    rintro rfl
    exact absurd hletter (by decide)
  have hfind : rest.find? (fun c => !isNameChar c) = none := by
    rw [List.find?_eq_none]
    intro c hc
    simp [characters c (by rw [htext]; exact List.mem_cons_of_mem letter hc)]
  simp [nameFault?, htext, hletter, hfind, hasLooseUnderscore_cons hne]

theorem RefusedFor.nameFault?_eq {text : String} {error : NameError}
    (h : RefusedFor text error) : nameFault? text = some error := by
  cases h with
  | empty nothing => simp [nameFault?, nothing]
  | invalidStart start noLetter => simp [nameFault?, start, noLetter]
  | invalidCharacter start found earliest foreign =>
      obtain ⟨letter, rest, htext, hletter⟩ := start
      have hfind := find?_foreign hletter (htext.symm.trans found) earliest foreign
      simp [nameFault?, htext, hletter, hfind]
  | invalidUnderscore start characters ungrammatical =>
      rw [← nameFault?_eq_none_iff, nameFault?_of_isNameChar start characters] at ungrammatical
      rw [nameFault?_of_isNameChar start characters]
      cases hloose : hasLooseUnderscore text.toList with
      | true => rfl
      | false => exact absurd (by rw [hloose]; rfl) ungrammatical

theorem refusedFor_of_nameFault? {text : String} {error : NameError}
    (h : nameFault? text = some error) : RefusedFor text error := by
  have hungrammatical : ¬ IsIdentifier text.toList := by
    intro hidentifier
    rw [nameFault?_of_isIdentifier hidentifier] at h
    cases h
  unfold nameFault? at h
  cases htext : text.toList with
  | nil =>
      simp only [htext, Option.some.injEq] at h
      exact h ▸ .empty htext
  | cons first rest =>
      cases hfirst : first.isAlpha with
      | false =>
          simp only [htext, hfirst, Bool.not_false, if_true, Option.some.injEq] at h
          exact h ▸ .invalidStart htext hfirst
      | true =>
          have hstart : StartsWithLetter text := ⟨first, rest, htext, hfirst⟩
          have hletter := isNameChar_of_isAlpha hfirst
          cases hfind : rest.find? fun c => !isNameChar c with
          | some c =>
              obtain ⟨hc, before, after, hrest, hbefore⟩ :=
                List.find?_eq_some_iff_append.1 hfind
              simp only [htext, hfirst, hfind, Bool.not_true, Bool.false_eq_true, if_false,
                Option.some.injEq] at h
              have hfound : text.toList = (first :: before) ++ c :: after := by
                rw [htext, hrest, List.cons_append]
              refine h ▸ .invalidCharacter hstart hfound ?_ (by simpa using hc)
              intro d hd
              rcases List.mem_cons.1 hd with rfl | hd
              · exact hletter
              · simpa using hbefore d hd
          | none =>
              cases hloose : hasLooseUnderscore rest with
              | false => simp [htext, hfirst, hfind, hloose] at h
              | true =>
                  simp only [htext, hfirst, hfind, hloose, Bool.not_true, Bool.false_eq_true,
                    if_false, if_true, Option.some.injEq] at h
                  refine h ▸ .invalidUnderscore hstart ?_ hungrammatical
                  intro c hc
                  rw [htext] at hc
                  rcases List.mem_cons.1 hc with rfl | hc
                  · exact hletter
                  · simpa using List.find?_eq_none.1 hfind c hc

theorem nameFault?_eq_some_iff {text : String} {error : NameError} :
    nameFault? text = some error ↔ RefusedFor text error :=
  ⟨refusedFor_of_nameFault?, RefusedFor.nameFault?_eq⟩

theorem refusedFor_invalidUnderscore_iff {text : String} :
    RefusedFor text (.invalidUnderscore text) ↔ StartsWithLetter text ∧
      (∀ c, c ∈ text.toList → isNameChar c = true) ∧
      (text.toList.getLast? = some '_' ∨ ['_', '_'] <:+: text.toList) := by
  rw [← hasLooseUnderscore_iff]
  constructor
  · intro h
    have hfault := h.nameFault?_eq
    cases h with
    | invalidUnderscore start characters ungrammatical =>
        rw [nameFault?_of_isNameChar start characters] at hfault
        cases hloose : hasLooseUnderscore text.toList with
        | true => exact ⟨start, characters, rfl⟩
        | false =>
            rw [hloose] at hfault
            cases hfault
  · intro h
    obtain ⟨start, characters, hloose⟩ := h
    apply refusedFor_of_nameFault?
    rw [nameFault?_of_isNameChar start characters, if_pos hloose]

namespace Name

theorem ofString_eq_ok_iff {text : String} {name : Name} :
    ofString text = .ok name ↔ nameFault? text = none ∧ name.text = text := by
  constructor
  · intro h
    have htext := text_of_ofString h
    exact ⟨htext ▸ name.valid, htext⟩
  · rintro ⟨-, rfl⟩
    exact ofString_text name

theorem ofString_eq_error_iff {text : String} {error : NameError} :
    ofString text = .error error ↔ nameFault? text = some error := by
  unfold ofString
  split
  · rename_i h
    simp [h]
  · rename_i found h
    simp [h]

/--
The texts of the grammar become names, as they are, and every other text is refused
for the first reason that applies to it.  The last reason is an underscore at the end of
the text, or two in a row.
-/
theorem ofString_outcome (text : String) :
    ((∃ name, ofString text = .ok name) ↔ IsIdentifier text.toList) ∧
      (∀ name, ofString text = .ok name ↔ IsIdentifier text.toList ∧ name.text = text) ∧
      (∀ error, ofString text = .error error ↔ RefusedFor text error) ∧
      ((∃ error, RefusedFor text error) ↔ ¬ IsIdentifier text.toList) ∧
      (ofString text = .error (.invalidUnderscore text) ↔ StartsWithLetter text ∧
        (∀ c, c ∈ text.toList → isNameChar c = true) ∧
        (text.toList.getLast? = some '_' ∨ ['_', '_'] <:+: text.toList)) := by
  have hok : ∀ name,
      ofString text = .ok name ↔ IsIdentifier text.toList ∧ name.text = text := by
    intro name
    rw [ofString_eq_ok_iff, nameFault?_eq_none_iff]
  refine ⟨⟨?_, ?_⟩, hok, ?_, ?_, ?_⟩
  · rintro ⟨name, h⟩
    exact ((hok name).1 h).1
  · intro h
    exact ⟨⟨text, nameFault?_of_isIdentifier h⟩, (hok _).2 ⟨h, rfl⟩⟩
  · intro error
    rw [ofString_eq_error_iff, nameFault?_eq_some_iff]
  · simp only [← nameFault?_eq_some_iff, ← nameFault?_eq_none_iff, ← Option.ne_none_iff_exists',
      ne_eq]
  · rw [ofString_eq_error_iff, nameFault?_eq_some_iff, refusedFor_invalidUnderscore_iff]

end Name

end WeightedKripke
