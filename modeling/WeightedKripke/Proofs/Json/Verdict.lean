import WeightedKripke.Proofs.Json.Grammar

/-!
# Values are judged by their own text

What a reader makes of a syntactically valid value depends on the text of the value alone:
`Judges reader` says that each value has one outcome, be it what was read or the fault,
wherever the value stands and whatever follows it.  Readers look at the first character
of a value and refuse those that start with any other.
-/

namespace WeightedKripke

namespace Json

open Grammar

variable {α β : Type}

/-- An outcome for a value in front of `rest`, which is left over. -/
def leaving (rest : List Char) : Except Fault α → Except Fault (α × List Char)
  | .ok a => .ok (a, rest)
  | .error fault => .error fault

/-- The reader comes to this outcome when it takes the value off the front of an input. -/
structure Takes (reader : Reader α) (value : List Char) (outcome : Except Fault α) : Prop where
  takes {text rest : List Char} (starts : skipBlanks text = value ++ rest)
    (ends : Delimited rest) : reader text = leaving rest outcome

structure Refuses (reader : Reader α) (c : Char) : Prop where
  refuses {text rest : List Char} (starts : skipBlanks text = c :: rest) :
    reader text = .error .malformed

/-- Every value has an outcome that does not depend on where it stands. -/
structure Judges (reader : Reader α) : Prop where
  judges {value : List Char} (valid : Value value) : ∃ outcome, Takes reader value outcome
  closing : Refuses reader ']'

theorem andThen_leaving {reader : Reader α} {text rest : List Char} {outcome : Except Fault α}
    (h : reader text = leaving rest outcome) (next : α → Except Fault β) :
    Decoder.andThen reader next text = leaving rest (outcome.bind next) := by
  simp only [Decoder.andThen, h]
  cases outcome with
  | error fault => rfl
  | ok a =>
      simp only [leaving, Except.bind, bind]
      cases next a <;> rfl

theorem Takes.andThen {reader : Reader α} {value : List Char} {outcome : Except Fault α}
    (h : Takes reader value outcome) (next : α → Except Fault β) :
    Takes (Decoder.andThen reader next) value (outcome.bind next) where
  takes starts ends := andThen_leaving (h.takes starts ends) next

theorem Refuses.andThen {reader : Reader α} {c : Char} (h : Refuses reader c)
    (next : α → Except Fault β) : Refuses (Decoder.andThen reader next) c where
  refuses starts := by
    simp only [Decoder.andThen, h.refuses starts, bind, Except.bind]

theorem Judges.andThen {reader : Reader α} (h : Judges reader) (next : α → Except Fault β) :
    Judges (Decoder.andThen reader next) where
  judges valid := by
    obtain ⟨outcome, htakes⟩ := h.judges valid
    exact ⟨_, htakes.andThen next⟩
  closing := h.closing.andThen next

theorem Refuses.exists_takes {reader : Reader α} {c : Char} (h : Refuses reader c)
    (tail : List Char) : ∃ outcome, Takes reader (c :: tail) outcome :=
  ⟨.error .malformed, ⟨fun starts _ => h.refuses starts⟩⟩

namespace Reader

theorem token_refuses {c d : Char} (h : d ≠ c) : Refuses (token c) d where
  refuses starts := by
    simp [token, starts, h]

/-! ## Strings -/

theorem stringBody_pair {a b c d e f g h char : Char} {high low : Nat}
    (hexHigh : hexUnit? a b c d = some high) (hexLow : hexUnit? e f g h = some low)
    (surrogates : surrogatePair? high low = some char) (rest : List Char) :
    stringBody ('\\' :: 'u' :: a :: b :: c :: d :: '\\' :: 'u' :: e :: f :: g :: h :: rest) =
      push char (stringBody rest) := by
  have hhigh : basicChar? high = none := by
    unfold surrogatePair? at surrogates
    split at surrogates
    · rw [basicChar?, if_pos (by omega)]
    · cases surrogates
  rw [stringBody.eq_def]
  simp [hexHigh, hexLow, hhigh, surrogates]

theorem stringBody_spells {body characters : List Char} (h : Spells body characters)
    (rest : List Char) : stringBody (body ++ '"' :: rest) = .ok (characters, rest) := by
  induction h with
  | nil => exact stringBody_quote rest
  | plain quote slash control _ ih =>
      rw [List.cons_append, stringBody_plain quote slash control, ih]
      rfl
  | short escape _ ih =>
      rw [List.cons_append, List.cons_append, stringBody_short escape, ih]
      rfl
  | unit hex basic _ ih =>
      simp only [List.cons_append]
      rw [stringBody_unit hex basic, ih]
      rfl
  | pair hexHigh hexLow surrogates _ ih =>
      simp only [List.cons_append]
      rw [stringBody_pair hexHigh hexLow surrogates, ih]
      rfl

def BodyOutcome (body : List Char) (outcome : Except Fault (List Char)) : Prop :=
  ∀ rest, stringBody (body ++ '"' :: rest) = leaving rest outcome

theorem BodyOutcome.push (start : List Char) {body : List Char} {char : Char}
    {outcome : Except Fault (List Char)} (h : BodyOutcome body outcome)
    (hread : ∀ text, stringBody (start ++ text) = push char (stringBody text)) :
    BodyOutcome (start ++ body) (outcome.map (char :: ·)) := by
  intro rest
  rw [List.append_assoc, hread, h rest]
  cases outcome <;> rfl

/-- A surrogate that no second one completes makes a string malformed. -/
theorem stringBody_lone {a b c d : Char} {unit : Nat} {rest : List Char}
    (hex : hexUnit? a b c d = some unit) (lone : basicChar? unit = none)
    (h : ∀ e f g h more, rest = '\\' :: 'u' :: e :: f :: g :: h :: more →
      (hexUnit? e f g h).bind (surrogatePair? unit) = none) :
    stringBody ('\\' :: 'u' :: a :: b :: c :: d :: rest) = .error .malformed := by
  rw [stringBody.eq_def]
  simp only [hex, lone]
  split
  · rw [h _ _ _ _ _ rfl]
  · rfl

/-- The body behind a first surrogate does not go on with a second one. -/
theorem bodyOutcome_lone {a b c d : Char} {unit : Nat} {body : List Char}
    (hex : hexUnit? a b c d = some unit) (lone : basicChar? unit = none)
    (h : ∀ rest e f g h more, body ++ '"' :: rest = '\\' :: 'u' :: e :: f :: g :: h :: more →
      (hexUnit? e f g h).bind (surrogatePair? unit) = none) :
    BodyOutcome ('\\' :: 'u' :: a :: b :: c :: d :: body) (.error .malformed) :=
  fun rest => stringBody_lone hex lone (h rest)

theorem exists_bodyOutcome_unit {a b c d : Char} {unit : Nat} {body : List Char}
    (hex : hexUnit? a b c d = some unit) (h : StringBody body)
    (ih : ∀ {more : List Char}, StringBody more → more.length ≤ body.length →
      ∃ outcome, BodyOutcome more outcome) :
    ∃ outcome, BodyOutcome ('\\' :: 'u' :: a :: b :: c :: d :: body) outcome := by
  cases hbasic : basicChar? unit with
  | some char =>
      obtain ⟨outcome, houtcome⟩ := ih h (Nat.le_refl _)
      exact ⟨_, houtcome.push ['\\', 'u', a, b, c, d] (stringBody_unit hex hbasic)⟩
  | none =>
      -- Only a second code unit can complete the surrogate.
      cases h with
      | nil =>
          refine ⟨_, bodyOutcome_lone hex hbasic ?_⟩
          intro rest e f g h more heq
          cases heq
      | plain _ slash _ _ =>
          refine ⟨_, bodyOutcome_lone hex hbasic ?_⟩
          intro rest e f g h more heq
          simp only [List.cons_append, List.cons.injEq] at heq
          exact absurd heq.1 slash
      | short escape _ =>
          refine ⟨_, bodyOutcome_lone hex hbasic ?_⟩
          intro rest e f g h more heq
          simp only [List.cons_append, List.cons.injEq] at heq
          rw [heq.2.1] at escape
          cases escape
      | unit hexLow more =>
          rename_i e f g h body low
          cases hpair : surrogatePair? unit low with
          | some char =>
              obtain ⟨outcome, houtcome⟩ := ih more (by simp; omega)
              exact ⟨_, houtcome.push ['\\', 'u', a, b, c, d, '\\', 'u', e, f, g, h]
                (stringBody_pair hex hexLow hpair)⟩
          | none =>
              refine ⟨_, bodyOutcome_lone hex hbasic ?_⟩
              intro rest e f g h more heq
              cases heq
              rw [hexLow]
              exact hpair

theorem exists_bodyOutcome {body : List Char} (h : StringBody body) :
    ∃ outcome, BodyOutcome body outcome := by
  induction hlength : body.length using Nat.strongRecOn generalizing body with
  | _ length ih =>
      have hshorter : ∀ {more : List Char}, StringBody more → more.length < body.length →
          ∃ outcome, BodyOutcome more outcome :=
        fun hmore hshort => ih _ (hlength ▸ hshort) hmore rfl
      cases h with
      | nil => exact ⟨.ok [], stringBody_quote⟩
      | plain quote slash control more =>
          obtain ⟨outcome, houtcome⟩ := hshorter more (by simp)
          exact ⟨_, houtcome.push [_] (stringBody_plain quote slash control)⟩
      | short escape more =>
          obtain ⟨outcome, houtcome⟩ := hshorter more (Nat.lt_succ_of_lt (Nat.lt_succ_self _))
          exact ⟨_, houtcome.push ['\\', _] (stringBody_short escape)⟩
      | unit hex more =>
          refine exists_bodyOutcome_unit hex more fun hmore hshort => hshorter hmore ?_
          simp only [List.length_cons]
          omega

/-- A key or a string is read with one outcome, whatever follows its closing mark. -/
theorem exists_string {body : List Char} (h : StringBody body) :
    ∃ outcome, ∀ {text rest : List Char},
      skipBlanks text = '"' :: (body ++ '"' :: rest) → string text = leaving rest outcome := by
  obtain ⟨outcome, houtcome⟩ := exists_bodyOutcome h
  refine ⟨outcome.map String.ofList, ?_⟩
  intro text rest htext
  simp only [string, token_of_skipBlanks htext, houtcome rest, bind, Except.bind]
  cases outcome <;> rfl

theorem string_refuses {c : Char} (h : c ≠ '"') : Refuses string c where
  refuses starts := by
    simp only [string, (token_refuses h).refuses starts, bind, Except.bind]

theorem judges_string : Judges string where
  closing := string_refuses (by decide)
  judges valid := by
    obtain ⟨c, tail, rfl, _⟩ := valid.exists_cons
    by_cases hc : c = '"'
    · subst hc
      obtain ⟨body, inside, rfl⟩ := valid.string_of_first
      obtain ⟨outcome, houtcome⟩ := exists_string inside
      refine ⟨outcome, ⟨fun starts _ => houtcome ?_⟩⟩
      rw [starts, List.cons_append, List.append_assoc, List.cons_append, List.nil_append]
    · exact (string_refuses hc).exists_takes tail

/-! ## Numbers and words -/

theorem natural_refuses {c : Char} (h : c.isDigit = false) (tail : List Char) :
    natural (c :: tail) = .error .malformed := by
  have hread : Decimal.readDigits (c :: tail) = ([], c :: tail) := by
    simp [Decimal.readDigits, List.span_eq_takeWhile_dropWhile, h]
  simp only [natural, hread]

theorem integer_refuses {c : Char} (h : ¬ (c = '-' ∨ c.isDigit = true)) :
    Refuses integer c where
  refuses {text rest} starts := by
    have hdigit : c.isDigit = false := by simpa using fun hc => h (Or.inr hc)
    simp only [integer, starts]
    split
    · rename_i heq
      cases heq
      exact absurd (Or.inl rfl) h
    · simp only [natural_refuses hdigit, bind, Except.bind]

/-- A fraction or an exponent makes a number none of the integers. -/
theorem continuesNumber_ending {ending : List Char} (h : Ending ending) :
    ending = [] ∨ ∀ rest, continuesNumber (ending ++ rest) = true := by
  cases h with
  | fraction _ _ => exact Or.inr fun rest => rfl
  | whole power =>
      cases power with
      | none => exact Or.inl rfl
      | plain letter _ => exact Or.inr fun rest => by rcases letter with rfl | rfl <;> rfl
      | signed letter _ _ => exact Or.inr fun rest => by rcases letter with rfl | rfl <;> rfl

theorem exists_takes_unsigned {whole ending : List Char} (start : Whole whole)
    (stop : Ending ending) : ∃ outcome, Takes integer (whole ++ ending) outcome := by
  have hread : ∀ {text rest : List Char}, skipBlanks text = whole ++ ending ++ rest →
      Delimited rest → integer text =
        if continuesNumber (ending ++ rest) then .error .malformed
        else .ok ((Decimal.valueOf whole : Int), ending ++ rest) := by
    intro text rest starts ends
    have hnatural := start.natural (stop.endsDigits ends)
    obtain ⟨d, digits, rfl, hdigit⟩ := start.1.exists_cons
    rw [integer, starts, List.append_assoc]
    split
    · rename_i heq
      cases heq
      exact absurd hdigit (by decide)
    · simp only [hnatural, bind, Except.bind]
  rcases continuesNumber_ending stop with rfl | hcontinues
  · refine ⟨.ok (Decimal.valueOf whole), ⟨fun starts ends => ?_⟩⟩
    simp [hread starts ends, ends.1, leaving]
  · refine ⟨.error .malformed, ⟨fun starts ends => ?_⟩⟩
    simp [hread starts ends, hcontinues, leaving]

theorem exists_takes_negative {whole ending : List Char} (start : Whole whole)
    (stop : Ending ending) : ∃ outcome, Takes integer ('-' :: (whole ++ ending)) outcome := by
  have hread : ∀ {text rest : List Char},
      skipBlanks text = '-' :: (whole ++ ending) ++ rest → Delimited rest → integer text =
        if Decimal.valueOf whole = 0 then .error .malformed
        else if continuesNumber (ending ++ rest) then .error .malformed
        else .ok (-(Decimal.valueOf whole : Int), ending ++ rest) := by
    intro text rest starts ends
    rw [List.cons_append, List.append_assoc] at starts
    simp only [integer, starts, start.natural (stop.endsDigits ends), bind, Except.bind]
  by_cases hzero : Decimal.valueOf whole = 0
  · refine ⟨.error .malformed, ⟨fun starts ends => ?_⟩⟩
    simp [hread starts ends, hzero, leaving]
  · rcases continuesNumber_ending stop with rfl | hcontinues
    · refine ⟨.ok (-(Decimal.valueOf whole : Int)), ⟨fun starts ends => ?_⟩⟩
      simp [hread starts ends, hzero, ends.1, leaving]
    · refine ⟨.error .malformed, ⟨fun starts ends => ?_⟩⟩
      simp [hread starts ends, hzero, hcontinues, leaving]

theorem exists_takes_integer {number : List Char} (h : Number number) :
    ∃ outcome, Takes integer number outcome := by
  cases h with
  | unsigned start stop => exact exists_takes_unsigned start stop
  | negative start stop => exact exists_takes_negative start stop

theorem judges_integer : Judges integer where
  closing := integer_refuses (by decide)
  judges valid := by
    obtain ⟨c, tail, rfl, _⟩ := valid.exists_cons
    by_cases hc : c = '-' ∨ c.isDigit = true
    · exact exists_takes_integer (valid.number_of_first hc)
    · exact (integer_refuses hc).exists_takes tail

theorem bool_refuses {c : Char} (htrue : c ≠ 't') (hfalse : c ≠ 'f') : Refuses bool c where
  refuses starts := by
    rw [bool, starts]
    split
    · rename_i heq
      cases heq
      exact absurd rfl htrue
    · rename_i heq
      cases heq
      exact absurd rfl hfalse
    · rfl

theorem judges_bool : Judges bool where
  closing := bool_refuses (by decide) (by decide)
  judges valid := by
    obtain ⟨c, tail, rfl, _⟩ := valid.exists_cons
    by_cases htrue : c = 't'
    · subst htrue
      rw [valid.true_of_first]
      exact ⟨.ok true, ⟨(reads_bool true).takes Style.compact_blank 0⟩⟩
    · by_cases hfalse : c = 'f'
      · subst hfalse
        rw [valid.false_of_first]
        exact ⟨.ok false, ⟨(reads_bool false).takes Style.compact_blank 0⟩⟩
      · exact (bool_refuses htrue hfalse).exists_takes tail

theorem null_refuses {c : Char} (h : c ≠ 'n') : Refuses null c where
  refuses starts := by
    rw [null, starts, word, if_neg h]

theorem judges_null : Judges null where
  closing := null_refuses (by decide)
  judges valid := by
    obtain ⟨c, tail, rfl, _⟩ := valid.exists_cons
    by_cases hc : c = 'n'
    · subst hc
      rw [valid.null_of_first]
      refine ⟨.ok (), ⟨fun starts _ => ?_⟩⟩
      rw [null, starts]
      exact word_append ['n', 'u', 'l', 'l'] _
    · exact (null_refuses hc).exists_takes tail

end Reader

end Json

end WeightedKripke
