import WeightedKripke.Json.Codec
import WeightedKripke.Proofs.Decimal.Text

/-!
# Reading back written JSON

`Reads reader value a` says that a reader takes the text of a JSON value off the
front of any input and returns `a`: in every style whose gaps are blanks, at every
depth, and whatever follows, as long as it does not go on with a number.  Numbers,
truth values and strings are read back; lists, maps and records build on them.
-/

namespace WeightedKripke

namespace Json

/-! ## Blanks -/

structure Style.Blank (style : Style) : Prop where
  lineBreak : ∀ depth c, c ∈ style.lineBreak depth → isBlank c = true
  colonGap : ∀ c, c ∈ style.colonGap → isBlank c = true

theorem Style.compact_blank : Style.compact.Blank where
  lineBreak := by simp [Style.compact]
  colonGap := by simp [Style.compact]

theorem Style.indented_blank : Style.indented.Blank where
  lineBreak := by
    intro depth c hc
    simp only [Style.indented, List.mem_cons, List.mem_replicate] at hc
    rcases hc with hc | ⟨_, hc⟩ <;> subst hc <;> decide
  colonGap := by
    intro c hc
    simp only [Style.indented, List.mem_singleton] at hc
    subst hc
    decide

theorem skipBlanks_append {blanks : List Char} (text : List Char)
    (h : ∀ c, c ∈ blanks → isBlank c = true) :
    skipBlanks (blanks ++ text) = skipBlanks text :=
  List.dropWhile_append_of_pos h

theorem skipBlanks_cons {c : Char} (text : List Char) (h : isBlank c = false) :
    skipBlanks (c :: text) = c :: text :=
  List.dropWhile_cons_of_neg (by simp [h])

/-! ## First characters -/

/-- The characters that a value can start with; closing brackets are none of them. -/
def opens (c : Char) : Bool :=
  !(isBlank c || c == ']' || c == '\x7d')

theorem isBlank_of_opens {c : Char} (h : opens c = true) : isBlank c = false := by
  simp [opens] at h
  exact h.1.1

theorem ne_of_opens {c : Char} (h : opens c = true) : c ≠ ']' ∧ c ≠ '\x7d' := by
  simp [opens] at h
  exact ⟨h.1.2, h.2⟩

theorem opens_of_isDigit {c : Char} (h : c.isDigit = true) : opens c = true := by
  simp only [opens, isBlank, Bool.not_eq_true', Bool.or_eq_false_iff, beq_eq_false_iff_ne]
  refine ⟨⟨⟨⟨⟨?_, ?_⟩, ?_⟩, ?_⟩, ?_⟩, ?_⟩ <;> rintro rfl <;> exact absurd h (by decide)

theorem exists_intText_cons (i : Int) :
    ∃ c tail, Decimal.intText i = c :: tail ∧ opens c = true := by
  unfold Decimal.intText
  obtain ⟨c, digits, htext, hdigit⟩ := Decimal.exists_natText_cons i.natAbs
  split
  · exact ⟨'-', _, rfl, by decide⟩
  · exact ⟨c, digits, htext, opens_of_isDigit hdigit⟩

/-- A written value starts with a character that is neither blank nor closing. -/
theorem exists_write_cons (style : Style) (depth : Nat) (value : Json) :
    ∃ c tail, value.write style depth = c :: tail ∧ opens c = true := by
  cases value with
  | null => exact ⟨'n', _, rfl, by decide⟩
  | bool b => cases b <;> exact ⟨_, _, rfl, by decide⟩
  | int i => exact exists_intText_cons i
  | string s => exact ⟨'"', _, rfl, by decide⟩
  | array items => cases items <;> exact ⟨'[', _, rfl, by decide⟩
  | object members => cases members <;> exact ⟨'\x7b', _, rfl, by decide⟩

theorem skipBlanks_write (style : Style) (depth : Nat) (value : Json)
    {blanks : List Char} (rest : List Char)
    (h : ∀ c, c ∈ blanks → isBlank c = true) :
    skipBlanks (blanks ++ (value.write style depth ++ rest)) =
      value.write style depth ++ rest := by
  obtain ⟨c, tail, hwrite, hopens⟩ := exists_write_cons style depth value
  rw [skipBlanks_append _ h, hwrite, List.cons_append,
    skipBlanks_cons _ (isBlank_of_opens hopens)]

/-! ## What may follow -/

def Delimited (text : List Char) : Prop :=
  Reader.continuesNumber text = false ∧ ∀ c, text.head? = some c → c.isDigit = false

theorem delimited_nil : Delimited [] := by
  simp [Delimited, Reader.continuesNumber]

theorem delimited_cons {c : Char} (text : List Char)
    (h : isBlank c = true ∨ c = ',' ∨ c = ']' ∨ c = '\x7d') : Delimited (c :: text) := by
  have hnumber : c ≠ '.' ∧ c ≠ 'e' ∧ c ≠ 'E' ∧ c.isDigit = false := by
    rcases h with h | rfl | rfl | rfl
    · simp only [isBlank, Bool.or_eq_true, beq_iff_eq] at h
      rcases h with ((rfl | rfl) | rfl) | rfl <;> decide
    all_goals decide
  constructor
  · simp [Reader.continuesNumber, hnumber]
  · intro d hd
    cases hd
    exact hnumber.2.2.2

/-- A line break and a closing bracket end a number. -/
theorem delimited_lineBreak {style : Style} (hstyle : style.Blank) (depth : Nat) {c : Char}
    (text : List Char) (h : c = ']' ∨ c = '\x7d') :
    Delimited (style.lineBreak depth ++ c :: text) := by
  cases hbreak : style.lineBreak depth with
  | nil => exact delimited_cons text (Or.inr (Or.inr h))
  | cons blank more =>
      exact delimited_cons _ (Or.inl (hstyle.lineBreak depth blank (by simp [hbreak])))

/-! ## Reading back -/

/-- The reader takes the text of the value off the front of an input and returns `a`. -/
structure Reads {α : Type} (reader : Reader α) (value : Json) (a : α) : Prop where
  takes {style : Style} (blank : style.Blank) (depth : Nat) {text rest : List Char}
    (starts : skipBlanks text = value.write style depth ++ rest) (ends : Delimited rest) :
    reader text = .ok (a, rest)

theorem Reads.after_blanks {α : Type} {reader : Reader α} {value : Json} {a : α}
    (h : Reads reader value a) {style : Style} (hstyle : style.Blank) (depth : Nat)
    {blanks rest : List Char} (hblanks : ∀ c, c ∈ blanks → isBlank c = true)
    (hrest : Delimited rest) :
    reader (blanks ++ (value.write style depth ++ rest)) = .ok (a, rest) :=
  h.takes hstyle depth (skipBlanks_write style depth value rest hblanks) hrest

theorem Reads.andThen {α β : Type} {reader : Reader α} {value : Json} {a : α}
    {next : α → Except Fault β} {b : β} (h : Reads reader value a) (hnext : next a = .ok b) :
    Reads (Decoder.andThen reader next) value b where
  takes hstyle depth _ _ htext hrest :=
    Decoder.andThen_of_ok (h.takes hstyle depth htext hrest) hnext

theorem Reads.map {α β : Type} {reader : Reader α} {value : Json} {a : α} (f : α → β)
    (h : Reads reader value a) :
    Reads (Decoder.andThen reader fun a => .ok (f a)) value (f a) :=
  h.andThen rfl

/-! ## Numbers and words -/

namespace Reader

theorem token_of_skipBlanks {c : Char} {text rest : List Char}
    (h : skipBlanks text = c :: rest) : token c text = .ok ((), rest) := by
  simp [token, h]

/-- A written number has no leading zero to be refused. -/
theorem natural_natText (n : Nat) {rest : List Char} (hrest : Delimited rest) :
    natural (Decimal.natText n ++ rest) = .ok (n, rest) := by
  unfold natural
  rw [Decimal.readDigits_natText n hrest.2]
  split
  · rename_i heq
    exact absurd (congrArg Prod.fst heq) (Decimal.natText_ne_nil n)
  · rename_i d digits more heq
    have htext : Decimal.natText n = '0' :: d :: digits := congrArg Prod.fst heq
    have hn : n ≠ 0 := by
      rintro rfl
      rw [Decimal.natText_of_lt (by decide)] at htext
      simp at htext
    exact absurd (by rw [htext]; rfl) (Decimal.head?_natText hn)
  · rename_i heq
    cases heq
    rw [Decimal.valueOf_natText]

theorem reads_integer (i : Int) : Reads integer (.int i) i := by
  constructor
  intro style _ depth text rest htext hrest
  simp only [write, Decimal.intText] at htext
  unfold integer
  by_cases hsign : i < 0
  · have habs : ¬ i.natAbs = 0 := by omega
    have hvalue : -(i.natAbs : Int) = i := by omega
    rw [if_pos hsign] at htext
    rw [htext]
    simp only [List.cons_append, natural_natText _ hrest, bind, Except.bind, if_neg habs,
      hrest.1, hvalue, Bool.false_eq_true, if_false]
  · have hvalue : (i.natAbs : Int) = i := by omega
    rw [if_neg hsign] at htext
    -- The first character is a digit, so the branch of the minus sign is not taken.
    obtain ⟨c, digits, hdigits, hdigit⟩ := Decimal.exists_natText_cons i.natAbs
    have hread := natural_natText i.natAbs hrest
    have hminus : c ≠ '-' := by
      rintro rfl
      exact absurd hdigit (by decide)
    rw [hdigits, List.cons_append] at htext hread
    rw [htext]
    split
    · rename_i heq
      simp only [List.cons.injEq] at heq
      exact absurd heq.1 hminus
    · simp [hread, bind, Except.bind, hrest.1, hvalue]

theorem word_append (expected rest : List Char) :
    word expected (expected ++ rest) = .ok ((), rest) := by
  induction expected with
  | nil => rfl
  | cons c expected ih => simp [word, ih]

theorem reads_bool (b : Bool) : Reads bool (.bool b) b := by
  constructor
  intro style _ depth text rest htext _
  unfold bool
  cases b
  · rw [htext]
    exact congrArg (· >>= _) (word_append ['a', 'l', 's', 'e'] rest)
  · rw [htext]
    exact congrArg (· >>= _) (word_append ['r', 'u', 'e'] rest)

/-! ## Strings -/

theorem hexValue?_hexDigit {d : Nat} (h : d < 16) : hexValue? (hexDigit d) = some d := by
  have hall : ∀ d : Fin 16, hexValue? (hexDigit d.val) = some d.val := by decide
  exact hall ⟨d, h⟩

/-- A control character is read back from its four hexadecimal digits. -/
theorem stringBody_control {c : Char} (h : c.toNat < 0x20) (rest : List Char) :
    stringBody ('\\' :: 'u' :: '0' :: '0' :: hexDigit (c.toNat / 16) ::
        hexDigit (c.toNat % 16) :: rest) =
      push c (stringBody rest) := by
  have hzero : hexValue? '0' = some 0 := by decide
  have hunit : hexUnit? '0' '0' (hexDigit (c.toNat / 16)) (hexDigit (c.toNat % 16)) =
      some c.toNat := by
    simp only [hexUnit?, hzero, hexValue?_hexDigit (by omega : c.toNat / 16 < 16),
      hexValue?_hexDigit (by omega : c.toNat % 16 < 16)]
    exact congrArg some (by omega)
  have hchar : basicChar? c.toNat = some c := by
    rw [basicChar?, if_neg (by omega), Char.ofNat_toNat]
  exact stringBody_unit hunit hchar rest

theorem stringBody_escapeChar (c : Char) (rest : List Char) :
    stringBody (escapeChar c ++ rest) = push c (stringBody rest) := by
  unfold escapeChar
  split
  · exact stringBody_short (c := '"') rfl rest
  · exact stringBody_short (c := '\\') rfl rest
  · exact stringBody_short (c := 'b') rfl rest
  · exact stringBody_short (c := 'f') rfl rest
  · exact stringBody_short (c := 'n') rfl rest
  · exact stringBody_short (c := 'r') rfl rest
  · exact stringBody_short (c := 't') rfl rest
  · rename_i hquote hslash _ _ _ _ _
    split
    · rename_i hcontrol
      exact stringBody_control hcontrol rest
    · rename_i hcontrol
      exact stringBody_plain hquote hslash hcontrol rest

theorem stringBody_flatMap_escapeChar (characters rest : List Char) :
    stringBody (characters.flatMap escapeChar ++ '"' :: rest) = .ok (characters, rest) := by
  induction characters with
  | nil => exact stringBody_quote rest
  | cons c characters ih =>
      rw [List.flatMap_cons, List.append_assoc, stringBody_escapeChar, ih]
      rfl

theorem string_quoted (s : String) {text rest : List Char}
    (h : skipBlanks text = quoted s ++ rest) : string text = .ok (s, rest) := by
  simp only [quoted, List.cons_append, List.append_assoc, List.nil_append] at h
  simp only [string, token_of_skipBlanks h, bind, Except.bind, stringBody_flatMap_escapeChar,
    String.ofList_toList]

theorem reads_string (s : String) : Reads string (.string s) s where
  takes _ _ _ _ htext _ := string_quoted s htext

end Reader

end Json

end WeightedKripke
