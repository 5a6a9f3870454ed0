import WeightedKripke.Name

/-!
# The grammar of names

`letter (letter | digit)* ('_' (letter | digit)+)*`, over ASCII letters and digits: a
word that starts with a letter, then groups of an underscore and a nonempty word.
Whatever passes the check of a name has this form.
-/

namespace WeightedKripke

def IsWord (characters : List Char) : Prop :=
  ∀ c, c ∈ characters → c.isAlphanum = true

def underscored (groups : List (List Char)) : List Char :=
  groups.flatMap fun word => '_' :: word

/-- A letter and a word, then nonempty words with an underscore before each of them. -/
def IsIdentifier (characters : List Char) : Prop :=
  ∃ letter word groups, characters = letter :: (word ++ underscored groups) ∧
    letter.isAlpha = true ∧ IsWord word ∧
      ∀ group, group ∈ groups → group ≠ [] ∧ IsWord group

theorem hasLooseUnderscore_tail {c : Char} {rest : List Char}
    (h : hasLooseUnderscore (c :: rest) = false) : hasLooseUnderscore rest = false := by
  cases rest with
  | nil => rfl
  | cons d rest =>
      simp only [hasLooseUnderscore, Bool.or_eq_false_iff] at h
      exact h.2

theorem exists_isAlphanum_of_underscore {rest : List Char}
    (hloose : hasLooseUnderscore ('_' :: rest) = false)
    (hname : ∀ c, c ∈ rest → isNameChar c = true) :
    ∃ d more, rest = d :: more ∧ d.isAlphanum = true := by
  cases rest with
  | nil => simp [hasLooseUnderscore] at hloose
  | cons d more =>
      have hunderscore : (d == '_') = false := by
        simp only [hasLooseUnderscore, Bool.or_eq_false_iff] at hloose
        simpa using hloose.1
      have hd := hname d List.mem_cons_self
      rw [isNameChar, hunderscore, Bool.or_false] at hd
      exact ⟨d, more, rfl, hd⟩

/-- Characters of a name without loose underscores fall into a word and groups. -/
theorem exists_groups {characters : List Char}
    (hname : ∀ c, c ∈ characters → isNameChar c = true)
    (hloose : hasLooseUnderscore characters = false) :
    ∃ word groups, characters = word ++ underscored groups ∧ IsWord word ∧
      ∀ group, group ∈ groups → group ≠ [] ∧ IsWord group := by
  induction characters with
  | nil => exact ⟨[], [], rfl, by simp [IsWord], by simp⟩
  | cons c rest ih =>
      have hrest : ∀ d, d ∈ rest → isNameChar d = true :=
        fun d hd => hname d (List.mem_cons_of_mem c hd)
      obtain ⟨word, groups, htext, hword, hgroups⟩ :=
        ih hrest (hasLooseUnderscore_tail hloose)
      by_cases hc : c = '_'
      · subst hc
        obtain ⟨d, more, hd, halphanum⟩ := exists_isAlphanum_of_underscore hloose hrest
        -- The first character is no underscore, so it belongs to the word.
        have hnonempty : word ≠ [] := by
          rintro rfl
          rw [List.nil_append, hd] at htext
          cases groups with
          | nil => cases htext
          | cons group groups =>
              rw [underscored, List.flatMap_cons, List.cons_append, List.cons.injEq] at htext
              rw [htext.1] at halphanum
              exact absurd halphanum (by decide)
        refine ⟨[], word :: groups, ?_, by simp [IsWord], ?_⟩
        · rw [htext, List.nil_append, underscored, underscored, List.flatMap_cons,
            List.cons_append]
        · intro group hgroup
          rcases List.mem_cons.1 hgroup with rfl | hgroup
          · exact ⟨hnonempty, hword⟩
          · exact hgroups group hgroup
      · have halphanum : c.isAlphanum = true := by
          have hchar := hname c List.mem_cons_self
          have hunderscore : (c == '_') = false := by simpa using hc
          rwa [isNameChar, hunderscore, Bool.or_false] at hchar
        refine ⟨c :: word, groups, by rw [htext, List.cons_append], ?_, hgroups⟩
        intro d hd
        rcases List.mem_cons.1 hd with rfl | hd
        · exact halphanum
        · exact hword d hd

/-- The four checks of a name, as far as they were passed. -/
theorem exists_cons_of_nameFault? {text : String} (h : nameFault? text = none) :
    ∃ first rest, text.toList = first :: rest ∧ first.isAlpha = true ∧
      (∀ c, c ∈ rest → isNameChar c = true) ∧ hasLooseUnderscore rest = false := by
  unfold nameFault? at h
  cases htext : text.toList with
  | nil => simp [htext] at h
  | cons first rest =>
      rw [htext] at h
      cases hfirst : first.isAlpha with
      | false => simp [hfirst] at h
      | true =>
          cases hfind : rest.find? fun c => !isNameChar c with
          | some c => simp [hfirst, hfind] at h
          | none =>
              cases hloose : hasLooseUnderscore rest with
              | true => simp [hfirst, hfind, hloose] at h
              | false =>
                  have hname := List.find?_eq_none.1 hfind
                  exact ⟨first, rest, rfl, hfirst, fun c hc => by simpa using hname c hc, hloose⟩

theorem isIdentifier_of_nameFault? {text : String} (h : nameFault? text = none) :
    IsIdentifier text.toList := by
  obtain ⟨first, rest, htext, hfirst, hname, hloose⟩ := exists_cons_of_nameFault? h
  obtain ⟨word, groups, hrest, hword, hgroups⟩ := exists_groups hname hloose
  exact ⟨first, word, groups, by rw [htext, hrest], hfirst, hword, hgroups⟩

namespace Name

theorem isIdentifier (name : Name) : IsIdentifier name.text.toList :=
  isIdentifier_of_nameFault? name.valid

theorem isNameChar_of_mem {name : Name} {c : Char} (h : c ∈ name.text.toList) :
    isNameChar c = true := by
  obtain ⟨first, rest, htext, hfirst, hname, _⟩ := exists_cons_of_nameFault? name.valid
  rw [htext] at h
  rcases List.mem_cons.1 h with rfl | h
  · simp [isNameChar, Char.isAlphanum, hfirst]
  · exact hname c h

end Name

end WeightedKripke
