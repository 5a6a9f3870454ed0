import WeightedKripke.Proofs.Json.Text

/-!
# The grammar of JSON texts

What a syntactically valid value is, said without a reader: the texts of numbers, strings,
arrays and objects, with blanks between their tokens.  A string may hold any escaped code
units; only `Spells` asks surrogates to come in pairs.  Every such value is skipped,
however deep it is nested.
-/

namespace WeightedKripke

namespace Json

namespace Grammar

def Blanks (text : List Char) : Prop :=
  ∀ c, c ∈ text → isBlank c = true

theorem blanks_nil : Blanks [] := by
  intro c hc
  cases hc

/-! ## Strings -/

inductive StringBody : List Char → Prop where
  | nil : StringBody []
  | plain {c : Char} {body : List Char} (quote : c ≠ '"') (slash : c ≠ '\\')
      (control : ¬ c.toNat < 0x20) (more : StringBody body) : StringBody (c :: body)
  | short {c char : Char} {body : List Char} (escape : Reader.shortEscape? c = some char)
      (more : StringBody body) : StringBody ('\\' :: c :: body)
  | unit {a b c d : Char} {body : List Char} {unit : Nat}
      (hex : Reader.hexUnit? a b c d = some unit) (more : StringBody body) :
      StringBody ('\\' :: 'u' :: a :: b :: c :: d :: body)

/-- What stands between the quotation marks stands for these characters. -/
inductive Spells : List Char → List Char → Prop where
  | nil : Spells [] []
  | plain {c : Char} {body characters : List Char} (quote : c ≠ '"') (slash : c ≠ '\\')
      (control : ¬ c.toNat < 0x20) (more : Spells body characters) :
      Spells (c :: body) (c :: characters)
  | short {c char : Char} {body characters : List Char}
      (escape : Reader.shortEscape? c = some char) (more : Spells body characters) :
      Spells ('\\' :: c :: body) (char :: characters)
  | unit {a b c d char : Char} {body characters : List Char} {unit : Nat}
      (hex : Reader.hexUnit? a b c d = some unit) (basic : Reader.basicChar? unit = some char)
      (more : Spells body characters) :
      Spells ('\\' :: 'u' :: a :: b :: c :: d :: body) (char :: characters)
  | pair {a b c d e f g h char : Char} {body characters : List Char} {high low : Nat}
      (hexHigh : Reader.hexUnit? a b c d = some high)
      (hexLow : Reader.hexUnit? e f g h = some low)
      (surrogates : Reader.surrogatePair? high low = some char)
      (more : Spells body characters) :
      Spells ('\\' :: 'u' :: a :: b :: c :: d :: '\\' :: 'u' :: e :: f :: g :: h :: body)
        (char :: characters)

/-! ## Numbers -/

def Digits (text : List Char) : Prop :=
  text ≠ [] ∧ ∀ c, c ∈ text → c.isDigit = true

def Whole (text : List Char) : Prop :=
  Digits text ∧ (text.head? = some '0' → text = ['0'])

inductive Exponent : List Char → Prop where
  | none : Exponent []
  | plain {c : Char} {digits : List Char} (letter : c = 'e' ∨ c = 'E')
      (run : Digits digits) : Exponent (c :: digits)
  | signed {c sign : Char} {digits : List Char} (letter : c = 'e' ∨ c = 'E')
      (either : sign = '+' ∨ sign = '-') (run : Digits digits) :
      Exponent (c :: sign :: digits)

inductive Ending : List Char → Prop where
  | whole {exponent : List Char} (power : Exponent exponent) : Ending exponent
  | fraction {digits exponent : List Char} (run : Digits digits) (power : Exponent exponent) :
      Ending ('.' :: (digits ++ exponent))

inductive Number : List Char → Prop where
  | unsigned {whole ending : List Char} (start : Whole whole) (stop : Ending ending) :
      Number (whole ++ ending)
  | negative {whole ending : List Char} (start : Whole whole) (stop : Ending ending) :
      Number ('-' :: (whole ++ ending))

/-! ## Arrays and objects -/

section Nested

variable (Value : List Char → Prop)

/-- Items with blanks around them and commas between them, and the closing bracket. -/
inductive Items : List (List Char) → List Char → Prop where
  | last {left value right : List Char} (before : Blanks left) (item : Value value)
      (after : Blanks right) : Items [value] (left ++ (value ++ (right ++ [']'])))
  | more {left value right text : List Char} {values : List (List Char)}
      (before : Blanks left) (item : Value value) (after : Blanks right)
      (more : Items values text) :
      Items (value :: values) (left ++ (value ++ (right ++ ',' :: text)))

inductive ArrayBody : List (List Char) → List Char → Prop where
  | empty {gap : List Char} (blank : Blanks gap) : ArrayBody [] (gap ++ [']'])
  | items {values : List (List Char)} {text : List Char} (inside : Items Value values text) :
      ArrayBody values text

/-- A member with the body of its key and its value, and blanks around both. -/
inductive Member : List Char × List Char → List Char → Prop where
  | intro {left body gap before value right : List Char} (ahead : Blanks left)
      (key : StringBody body) (behind : Blanks gap) (between : Blanks before)
      (item : Value value) (after : Blanks right) :
      Member (body, value)
        (left ++ '"' :: (body ++ '"' :: (gap ++ ':' :: (before ++ (value ++ right)))))

inductive Members : List (List Char × List Char) → List Char → Prop where
  | last {member : List Char × List Char} {text : List Char}
      (first : Member Value member text) : Members [member] (text ++ ['\x7d'])
  | more {member : List Char × List Char} {members : List (List Char × List Char)}
      {text rest : List Char} (first : Member Value member text)
      (more : Members members rest) : Members (member :: members) (text ++ ',' :: rest)

inductive ObjectBody : List (List Char × List Char) → List Char → Prop where
  | empty {gap : List Char} (blank : Blanks gap) : ObjectBody [] (gap ++ ['\x7d'])
  | members {members : List (List Char × List Char)} {text : List Char}
      (inside : Members Value members text) : ObjectBody members text

end Nested

inductive Value : List Char → Prop where
  | nullWord : Value ['n', 'u', 'l', 'l']
  | trueWord : Value ['t', 'r', 'u', 'e']
  | falseWord : Value ['f', 'a', 'l', 's', 'e']
  | number {text : List Char} (form : Number text) : Value text
  | string {body : List Char} (inside : StringBody body) : Value ('"' :: (body ++ ['"']))
  | array {values : List (List Char)} {body : List Char}
      (inside : ArrayBody Value values body) : Value ('[' :: body)
  | object {members : List (List Char × List Char)} {body : List Char}
      (inside : ObjectBody Value members body) : Value ('\x7b' :: body)

/-- The member has this name, and its value has this text. -/
def Named (member : List Char × List Char) (named : String × List Char) : Prop :=
  Spells member.1 named.1.toList ∧ member.2 = named.2

inductive Object (members : List (String × List Char)) : List Char → Prop where
  | intro {left inside right : List Char} {found : List (List Char × List Char)}
      (before : Blanks left) (body : ObjectBody Value found inside)
      (names : List.Forall₂ Named found members) (after : Blanks right) :
      Object members (left ++ '\x7b' :: (inside ++ right))

/-! ## First characters -/

theorem Digits.exists_cons {text : List Char} (h : Digits text) :
    ∃ c tail, text = c :: tail ∧ c.isDigit = true := by
  cases text with
  | nil => exact absurd rfl h.1
  | cons c tail => exact ⟨c, tail, rfl, h.2 c List.mem_cons_self⟩

theorem Number.exists_cons {text : List Char} (h : Number text) :
    ∃ c tail, text = c :: tail ∧ (c = '-' ∨ c.isDigit = true) := by
  cases h with
  | negative _ _ => exact ⟨'-', _, rfl, Or.inl rfl⟩
  | unsigned start _ =>
      obtain ⟨c, tail, rfl, hdigit⟩ := start.1.exists_cons
      exact ⟨c, _, rfl, Or.inr hdigit⟩

theorem Value.exists_cons {text : List Char} (h : Value text) :
    ∃ c tail, text = c :: tail ∧ opens c = true := by
  cases h with
  | nullWord => exact ⟨_, _, rfl, by decide⟩
  | trueWord => exact ⟨_, _, rfl, by decide⟩
  | falseWord => exact ⟨_, _, rfl, by decide⟩
  | string _ => exact ⟨_, _, rfl, by decide⟩
  | array _ => exact ⟨_, _, rfl, by decide⟩
  | object _ => exact ⟨_, _, rfl, by decide⟩
  | number form =>
      obtain ⟨c, tail, rfl, hc⟩ := form.exists_cons
      rcases hc with rfl | hdigit
      · exact ⟨_, _, rfl, by decide⟩
      · exact ⟨_, _, rfl, opens_of_isDigit hdigit⟩

theorem Number.first {c : Char} {tail : List Char} (h : Number (c :: tail)) :
    c = '-' ∨ c.isDigit = true := by
  obtain ⟨d, more, hcons, hd⟩ := h.exists_cons
  cases hcons
  exact hd

/-! ## Simple strings and numbers -/

theorem Spells.stringBody {body characters : List Char} (h : Spells body characters) :
    StringBody body := by
  induction h with
  | nil => exact .nil
  | plain quote slash control _ ih => exact .plain quote slash control ih
  | short escape _ ih => exact .short escape ih
  | unit hex _ _ ih => exact .unit hex ih
  | pair hexHigh hexLow _ _ ih => exact .unit hexHigh (.unit hexLow ih)

theorem spells_plain {characters : List Char}
    (h : ∀ c, c ∈ characters → c ≠ '"' ∧ c ≠ '\\' ∧ ¬ c.toNat < 0x20) :
    Spells characters characters := by
  induction characters with
  | nil => exact .nil
  | cons c characters ih =>
      obtain ⟨quote, slash, control⟩ := h c List.mem_cons_self
      exact .plain quote slash control (ih fun d hd => h d (List.mem_cons_of_mem c hd))

theorem value_natText (n : Nat) : Value (Decimal.natText n) := by
  have hdigits : Digits (Decimal.natText n) :=
    ⟨Decimal.natText_ne_nil n, fun _ hc => Decimal.isDigit_of_mem_natText hc⟩
  have hwhole : Whole (Decimal.natText n) := by
    refine ⟨hdigits, fun hzero => ?_⟩
    by_cases hn : n = 0
    · rw [hn]
      rfl
    · exact absurd hzero (Decimal.head?_natText hn)
  have hnumber := Number.unsigned hwhole (.whole .none)
  rw [List.append_nil] at hnumber
  exact .number hnumber

/-! ## The first character of a value tells its kind -/

theorem Value.number_of_first {c : Char} {tail : List Char} (h : Value (c :: tail))
    (hc : c = '-' ∨ c.isDigit = true) : Number (c :: tail) := by
  cases h with
  | number form => exact form
  | nullWord => exact absurd hc (by decide)
  | trueWord => exact absurd hc (by decide)
  | falseWord => exact absurd hc (by decide)
  | string _ => exact absurd hc (by decide)
  | array _ => exact absurd hc (by decide)
  | object _ => exact absurd hc (by decide)

theorem Value.null_of_first {tail : List Char} (h : Value ('n' :: tail)) :
    tail = ['u', 'l', 'l'] := by
  cases h with
  | nullWord => rfl
  | number form => exact absurd form.first (by decide)

theorem Value.true_of_first {tail : List Char} (h : Value ('t' :: tail)) :
    tail = ['r', 'u', 'e'] := by
  cases h with
  | trueWord => rfl
  | number form => exact absurd form.first (by decide)

theorem Value.false_of_first {tail : List Char} (h : Value ('f' :: tail)) :
    tail = ['a', 'l', 's', 'e'] := by
  cases h with
  | falseWord => rfl
  | number form => exact absurd form.first (by decide)

theorem Value.string_of_first {tail : List Char} (h : Value ('"' :: tail)) :
    ∃ body, StringBody body ∧ tail = body ++ ['"'] := by
  cases h with
  | string inside => exact ⟨_, inside, rfl⟩
  | number form => exact absurd form.first (by decide)

theorem Value.array_of_first {tail : List Char} (h : Value ('[' :: tail)) :
    ∃ values, ArrayBody Value values tail := by
  cases h with
  | array inside => exact ⟨_, inside⟩
  | number form => exact absurd form.first (by decide)

theorem Value.object_of_first {tail : List Char} (h : Value ('\x7b' :: tail)) :
    ∃ members, ObjectBody Value members tail := by
  cases h with
  | object inside => exact ⟨_, inside⟩
  | number form => exact absurd form.first (by decide)

theorem Value.skipBlanks {value gap : List Char} (h : Value value) (hgap : Blanks gap)
    (rest : List Char) : Json.skipBlanks (gap ++ (value ++ rest)) = value ++ rest := by
  obtain ⟨c, tail, rfl, hopens⟩ := h.exists_cons
  rw [skipBlanks_append _ hgap, List.cons_append, skipBlanks_cons _ (isBlank_of_opens hopens)]

theorem Blanks.skipBlanks {gap : List Char} (h : Blanks gap) {c : Char}
    (hc : isBlank c = false) (rest : List Char) :
    Json.skipBlanks (gap ++ c :: rest) = c :: rest := by
  rw [skipBlanks_append _ h, skipBlanks_cons _ hc]

/-- What stands behind an item or a member: a comma, or the closing character. -/
inductive Follows : Char → Prop where
  | comma : Follows ','
  | bracket : Follows ']'
  | brace : Follows '\x7d'

theorem Blanks.skipBlanks_of_follows {gap : List Char} (h : Blanks gap) {c : Char} (hc : Follows c)
    (rest : List Char) : Json.skipBlanks (gap ++ c :: rest) = c :: rest := by
  have hblank : isBlank c = false := by
    cases hc <;> decide
  exact h.skipBlanks hblank rest

/-- Blanks and what follows them end a number. -/
theorem Blanks.delimited {gap : List Char} (h : Blanks gap) {c : Char} (hc : Follows c)
    (rest : List Char) : Delimited (gap ++ c :: rest) := by
  cases gap with
  | nil =>
      have hends : c = ',' ∨ c = ']' ∨ c = '\x7d' := by
        cases hc <;> decide
      exact delimited_cons rest (Or.inr hends)
  | cons blank more => exact delimited_cons _ (Or.inl (h blank List.mem_cons_self))

/-- The first item starts with a character that is neither blank nor closing. -/
theorem Items.exists_cons {values : List (List Char)} {items : List Char}
    (h : Items Value values items) (rest : List Char) :
    ∃ c tail, skipBlanks (items ++ rest) = c :: tail ∧ opens c = true := by
  cases h with
  | last before item _ =>
      obtain ⟨c, tail, rfl, hopens⟩ := item.exists_cons
      simp only [List.append_assoc, item.skipBlanks before]
      exact ⟨c, _, rfl, hopens⟩
  | more before item _ _ =>
      obtain ⟨c, tail, rfl, hopens⟩ := item.exists_cons
      simp only [List.append_assoc, item.skipBlanks before]
      exact ⟨c, _, rfl, hopens⟩

theorem Member.exists_cons {member : List Char × List Char} {inside : List Char}
    (h : Member Value member inside) (rest : List Char) :
    ∃ tail, skipBlanks (inside ++ rest) = '"' :: tail := by
  cases h with
  | intro ahead _ _ _ _ _ =>
      rw [List.append_assoc, List.cons_append, ahead.skipBlanks (by decide)]
      exact ⟨_, rfl⟩

theorem Members.exists_cons {members : List (List Char × List Char)} {inside : List Char}
    (h : Members Value members inside) (rest : List Char) :
    ∃ tail, skipBlanks (inside ++ rest) = '"' :: tail := by
  cases h with
  | last first =>
      rw [List.append_assoc]
      exact first.exists_cons _
  | more first _ =>
      rw [List.append_assoc]
      exact first.exists_cons _

theorem Member.key {member : List Char × List Char} {inside : List Char}
    (h : Member Value member inside) : StringBody member.1 := by
  cases h with
  | intro _ key _ _ _ _ => exact key

theorem Member.value {member : List Char × List Char} {inside : List Char}
    (h : Member Value member inside) : Value member.2 := by
  cases h with
  | intro _ _ _ _ item _ => exact item

theorem Members.forall {members : List (List Char × List Char)} {inside : List Char}
    (h : Members Value members inside) :
    ∀ member, member ∈ members → StringBody member.1 ∧ Value member.2 := by
  induction h with
  | last first => simpa using ⟨first.key, first.value⟩
  | more first _ ih =>
      intro member hmember
      rcases List.mem_cons.1 hmember with rfl | hmember
      · exact ⟨first.key, first.value⟩
      · exact ih member hmember

theorem ObjectBody.forall {members : List (List Char × List Char)} {inside : List Char}
    (h : ObjectBody Value members inside) :
    ∀ member, member ∈ members → StringBody member.1 ∧ Value member.2 := by
  cases h with
  | empty _ => simp
  | members hmembers => exact hmembers.forall

theorem value_of_named {found : List (List Char × List Char)}
    {members : List (String × List Char)} (h : List.Forall₂ Named found members)
    (hfound : ∀ member, member ∈ found → Value member.2) :
    ∀ member, member ∈ members → Value member.2 := by
  induction h with
  | nil => simp
  | cons hnamed _ ih =>
      intro member hmember
      rcases List.mem_cons.1 hmember with rfl | hmember
      · exact hnamed.2 ▸ hfound _ List.mem_cons_self
      · exact ih (fun other hother => hfound other (List.mem_cons_of_mem _ hother)) member hmember

/-- What a reader finds of a member: the key, then the colon, then the value. -/
theorem Member.parts {member : List Char × List Char} {inside : List Char}
    (h : Member Value member inside) {text rest : List Char}
    (htext : skipBlanks text = skipBlanks (inside ++ rest)) :
    ∃ behind between right, skipBlanks text = '"' :: (member.1 ++ '"' :: behind) ∧
      skipBlanks behind = ':' :: between ∧
      skipBlanks between = member.2 ++ (right ++ rest) ∧ Blanks right := by
  cases h with
  | intro ahead key behind between item after =>
      simp only [List.append_assoc, List.cons_append] at htext
      rw [ahead.skipBlanks (by decide)] at htext
      exact ⟨_, _, _, htext, behind.skipBlanks (by decide) _, item.skipBlanks between _, after⟩

theorem length_skipBlanks_le (text : List Char) :
    (skipBlanks text).length ≤ text.length :=
  (List.dropWhile_suffix isBlank).length_le

/-- There are no more items than characters from the first item on. -/
theorem Items.length_le {values : List (List Char)} {items : List Char}
    (h : Items Value values items) (rest : List Char) :
    values.length ≤ (skipBlanks (items ++ rest)).length := by
  induction h with
  | last before item _ =>
      simp only [List.append_assoc, item.skipBlanks before, List.length_append,
        List.length_cons, List.length_nil]
      omega
  | more before item _ _ ih =>
      rename_i text _ _ _
      have hrest := length_skipBlanks_le (text ++ rest)
      simp only [List.append_assoc, List.cons_append, item.skipBlanks before,
        List.length_append, List.length_cons] at *
      omega

theorem Member.length_lt {member : List Char × List Char} {inside : List Char}
    (h : Member Value member inside) : member.2.length + 1 < inside.length := by
  cases h with
  | intro _ _ _ _ _ _ =>
      simp only [List.length_append, List.length_cons]
      omega

theorem Members.length_le {members : List (List Char × List Char)} {inside : List Char}
    (h : Members Value members inside) (rest : List Char) :
    members.length ≤ (skipBlanks (inside ++ rest)).length := by
  induction h with
  | last first =>
      obtain ⟨tail, htail⟩ := first.exists_cons (['\x7d'] ++ rest)
      rw [List.append_assoc, htail]
      exact Nat.succ_le_succ (Nat.zero_le _)
  | more first _ ih =>
      rename_i text more _
      have hlater := length_skipBlanks_le (more ++ rest)
      obtain ⟨behind, between, right, hkey, hcolon, hvalue, _⟩ :=
        first.parts (rfl : skipBlanks (text ++ ',' :: (more ++ rest)) = _)
      have hbehind := length_skipBlanks_le behind
      have hbetween := length_skipBlanks_le between
      rw [List.append_assoc, List.cons_append, hkey]
      rw [hcolon] at hbehind
      rw [hvalue] at hbetween
      simp only [List.length_cons, List.length_append] at *
      omega

/-! ## Numbers are taken whole -/

def EndsDigits (text : List Char) : Prop :=
  ∀ c, text.head? = some c → c.isDigit = false

theorem endsDigits_cons {c : Char} (h : c.isDigit = false) (text : List Char) :
    EndsDigits (c :: text) := by
  intro d hd
  cases hd
  exact h

theorem Exponent.endsDigits {exponent rest : List Char} (h : Exponent exponent)
    (hrest : Delimited rest) : EndsDigits (exponent ++ rest) := by
  cases h with
  | none => exact hrest.2
  | plain letter _ => exact endsDigits_cons (by rcases letter with rfl | rfl <;> decide) _
  | signed letter _ _ => exact endsDigits_cons (by rcases letter with rfl | rfl <;> decide) _

theorem Ending.endsDigits {ending rest : List Char} (h : Ending ending)
    (hrest : Delimited rest) : EndsDigits (ending ++ rest) := by
  cases h with
  | whole power => exact power.endsDigits hrest
  | fraction _ _ => exact endsDigits_cons (by decide) _

theorem Whole.natural {whole rest : List Char} (h : Whole whole) (hrest : EndsDigits rest) :
    Reader.natural (whole ++ rest) = .ok (Decimal.valueOf whole, rest) := by
  unfold Reader.natural
  rw [Decimal.readDigits_append h.1.2 hrest]
  split
  · rename_i heq
    exact absurd (congrArg Prod.fst heq) h.1.1
  · rename_i d digits more heq
    have hwhole : whole = '0' :: d :: digits := congrArg Prod.fst heq
    have hzero := h.2 (by rw [hwhole]; rfl)
    rw [hwhole] at hzero
    cases hzero
  · rename_i heq
    cases heq
    rfl

theorem Digits.skip {digits rest : List Char} (h : Digits digits) (hrest : EndsDigits rest) :
    Skip.digits (digits ++ rest) = .ok ((), rest) := by
  unfold Skip.digits
  rw [Decimal.readDigits_append h.2 hrest]
  split
  · rename_i heq
    exact absurd (congrArg Prod.fst heq) h.1
  · rename_i heq
    cases heq
    rfl

theorem Exponent.skip {exponent rest : List Char} (h : Exponent exponent)
    (hrest : Delimited rest) : Skip.exponent (exponent ++ rest) = .ok ((), rest) := by
  cases h with
  | none =>
      have hnumber := hrest.1
      cases rest with
      | nil => rfl
      | cons c rest =>
          simp only [Reader.continuesNumber, Bool.or_eq_false_iff, beq_eq_false_iff_ne] at hnumber
          simp [Skip.exponent, hnumber]
  | plain letter run =>
      obtain ⟨d, tail, rfl, hdigit⟩ := run.exists_cons
      have hdigits := run.skip hrest.2
      rw [List.cons_append] at hdigits
      simp only [Skip.exponent, List.cons_append, if_pos letter]
      split
      · rename_i heq
        cases heq
        exact absurd hdigit (by decide)
      · rename_i heq
        cases heq
        exact absurd hdigit (by decide)
      · exact hdigits
  | signed letter either run =>
      simp only [Skip.exponent, List.cons_append, if_pos letter]
      rcases either with rfl | rfl
      · exact run.skip hrest.2
      · exact run.skip hrest.2

theorem Ending.skip {ending rest : List Char} (h : Ending ending) (hrest : Delimited rest) :
    Skip.fractionAndExponent (ending ++ rest) = .ok ((), rest) := by
  cases h with
  | whole power =>
      have hskip := power.skip hrest
      unfold Skip.fractionAndExponent
      split
      · rename_i heq
        rw [heq] at hskip
        cases power with
        | none =>
            rw [List.nil_append] at heq
            rw [heq] at hrest
            exact absurd hrest.1 (by simp [Reader.continuesNumber])
        | plain letter _ => rcases letter with rfl | rfl <;> cases heq
        | signed letter _ _ => rcases letter with rfl | rfl <;> cases heq
      · exact hskip
  | fraction run power =>
      rw [List.cons_append, List.append_assoc]
      simp only [Skip.fractionAndExponent, run.skip (power.endsDigits hrest), bind, Except.bind]
      exact power.skip hrest

theorem skip_number {whole ending rest : List Char} (start : Whole whole)
    (stop : Ending ending) (hrest : Delimited rest) :
    Skip.number (whole ++ ending ++ rest) = .ok ((), rest) := by
  rw [List.append_assoc]
  simp only [Skip.number, start.natural (stop.endsDigits hrest), bind, Except.bind]
  exact stop.skip hrest

/-! ## Every value is skipped -/

theorem skip_plain {c : Char} (quote : c ≠ '"') (slash : c ≠ '\\')
    (control : ¬ c.toNat < 0x20) (text : List Char) :
    Skip.stringBody (c :: text) = Skip.stringBody text := by
  rw [Skip.stringBody.eq_def]
  split
  · rename_i heq
    cases heq
  · rename_i heq
    cases heq
    exact absurd rfl quote
  · rename_i heq
    cases heq
    exact absurd rfl slash
  · rename_i heq
    cases heq
    exact absurd rfl slash
  · rename_i heq
    cases heq
    rw [if_neg (not_or.2 ⟨slash, control⟩)]

theorem skip_short {c char : Char} (escape : Reader.shortEscape? c = some char)
    (text : List Char) : Skip.stringBody ('\\' :: c :: text) = Skip.stringBody text := by
  rw [Skip.stringBody.eq_def]
  split
  · simp_all
  · simp_all
  · rename_i heq
    cases heq
    simp [Reader.shortEscape?] at escape
  · rename_i heq
    cases heq
    simp [escape]
  · rename_i hne heq
    cases heq
    exact absurd rfl (hne c text rfl)

theorem skip_unit {a b c d : Char} {unit : Nat} (hex : Reader.hexUnit? a b c d = some unit)
    (text : List Char) :
    Skip.stringBody ('\\' :: 'u' :: a :: b :: c :: d :: text) = Skip.stringBody text := by
  rw [Skip.stringBody.eq_def]
  simp [hex]

theorem StringBody.skip {body : List Char} (h : StringBody body) (rest : List Char) :
    Skip.stringBody (body ++ '"' :: rest) = .ok ((), rest) := by
  induction h with
  | nil => simp [Skip.stringBody]
  | plain quote slash control _ ih => exact (skip_plain quote slash control _).trans ih
  | short escape _ ih => exact (skip_short escape _).trans ih
  | unit hex _ ih => exact (skip_unit hex _).trans ih

/-- The value is skipped wherever it stands, when there is fuel for its text. -/
def Skipped (value : List Char) : Prop :=
  ∀ (fuel : Nat) {text rest : List Char}, 2 * value.length ≤ fuel →
    skipBlanks text = value ++ rest → Delimited rest →
      Skip.valueFuel fuel text = .ok ((), rest)

section Inside

variable {bound : Nat}
  (ih : ∀ {value : List Char}, Value value → value.length < bound → Skipped value)

include ih

theorem Items.skip {values : List (List Char)} {items : List Char}
    (h : Items Value values items) (hbound : items.length ≤ bound) :
    ∀ (fuel : Nat) {text : List Char} (rest : List Char), 2 * items.length ≤ fuel + 1 →
      skipBlanks text = skipBlanks (items ++ rest) →
        Skip.itemsFuel fuel text = .ok ((), rest) := by
  induction h with
  | last before item after =>
      intro fuel text rest hfuel htext
      simp only [List.length_append, List.length_cons, List.length_nil] at hbound hfuel
      obtain ⟨fuel, rfl⟩ := Nat.exists_eq_succ_of_ne_zero (by omega : fuel ≠ 0)
      simp only [List.append_assoc, List.cons_append, List.nil_append,
        item.skipBlanks before] at htext
      have hvalue := ih item (by omega) fuel (by omega) htext
        (after.delimited .bracket rest)
      simp only [Skip.itemsFuel, hvalue, bind, Except.bind, after.skipBlanks_of_follows .bracket]
  | more before item after _ ihmore =>
      intro fuel text rest hfuel htext
      simp only [List.length_append, List.length_cons] at hbound hfuel
      obtain ⟨fuel, rfl⟩ := Nat.exists_eq_succ_of_ne_zero (by omega : fuel ≠ 0)
      simp only [List.append_assoc, List.cons_append, item.skipBlanks before] at htext
      have hvalue := ih item (by omega) fuel (by omega) htext (after.delimited .comma _)
      simp only [Skip.itemsFuel, hvalue, bind, Except.bind, after.skipBlanks_of_follows .comma]
      exact ihmore (by omega) fuel rest (by omega) rfl

/-- After a member of an object the skipper stands behind its value. -/
theorem Member.skip {member : List Char × List Char} {inside : List Char}
    (h : Member Value member inside) (hbound : member.2.length < bound) (fuel : Nat)
    {text rest : List Char} {c : Char} (hfuel : 2 * member.2.length ≤ fuel)
    (htext : skipBlanks text = skipBlanks (inside ++ c :: rest))
    (hc : Follows c) :
    ∃ between right, Skip.key text = .ok ((), between) ∧
      Skip.valueFuel fuel between = .ok ((), right ++ c :: rest) ∧ Blanks right := by
  obtain ⟨behind, between, right, hkey, hcolon, hvalue, hright⟩ := h.parts htext
  refine ⟨between, right, ?_, ?_, hright⟩
  · simp only [Skip.key, Reader.token_of_skipBlanks hkey, h.key.skip, bind, Except.bind,
      Reader.token_of_skipBlanks hcolon]
  · exact ih h.value hbound fuel hfuel hvalue (hright.delimited hc rest)

theorem Members.skip {members : List (List Char × List Char)} {inside : List Char}
    (h : Members Value members inside) (hbound : inside.length ≤ bound) :
    ∀ (fuel : Nat) {text : List Char} (rest : List Char),
      2 * inside.length ≤ fuel + 1 → skipBlanks text = skipBlanks (inside ++ rest) →
        Skip.membersFuel fuel text = .ok ((), rest) := by
  induction h with
  | last first =>
      intro fuel text rest hfuel htext
      simp only [List.length_append, List.length_cons, List.length_nil] at hbound hfuel
      obtain ⟨fuel, rfl⟩ := Nat.exists_eq_succ_of_ne_zero (by omega : fuel ≠ 0)
      rw [List.append_assoc, List.cons_append, List.nil_append] at htext
      have hlength := first.length_lt
      obtain ⟨between, right, hkey, hvalue, hright⟩ := first.skip ih (by omega) fuel (by omega)
        htext .brace
      simp only [Skip.membersFuel, hkey, hvalue, bind, Except.bind,
        hright.skipBlanks_of_follows .brace]
  | more first _ ihmore =>
      intro fuel text rest hfuel htext
      simp only [List.length_append, List.length_cons] at hbound hfuel
      obtain ⟨fuel, rfl⟩ := Nat.exists_eq_succ_of_ne_zero (by omega : fuel ≠ 0)
      rw [List.append_assoc, List.cons_append] at htext
      have hlength := first.length_lt
      obtain ⟨between, right, hkey, hvalue, hright⟩ := first.skip ih (by omega) fuel (by omega)
        htext .comma
      simp only [Skip.membersFuel, hkey, hvalue, bind, Except.bind,
        hright.skipBlanks_of_follows .comma]
      exact ihmore (by omega) fuel rest (by omega) rfl

end Inside

theorem Number.skip {number : List Char} (h : Number number) (fuel : Nat)
    {text rest : List Char} (htext : skipBlanks text = number ++ rest)
    (hrest : Delimited rest) : Skip.valueFuel (fuel + 1) text = .ok ((), rest) := by
  cases h with
  | negative start stop =>
      rw [List.cons_append] at htext
      simp only [Skip.valueFuel, htext, skip_number start stop hrest]
  | unsigned start stop =>
      have hskip := skip_number start stop hrest
      rw [Skip.valueFuel, htext]
      obtain ⟨d, digits, rfl, hdigit⟩ := start.1.exists_cons
      -- A digit starts the text, so no branch of another kind of value is taken.
      split
      all_goals first
        | exact hskip
        | (rename_i heq
           cases heq
           exact absurd hdigit (by decide))

theorem Value.skip {value : List Char} (h : Value value) : Skipped value := by
  induction hlength : value.length using Nat.strongRecOn generalizing value with
  | _ bound ih =>
      have hinside : ∀ {item : List Char}, Value item → item.length < bound →
          Skipped item :=
        fun hitem hshort => ih _ hshort hitem rfl
      intro fuel text rest hfuel htext hrest
      obtain ⟨fuel, rfl⟩ : ∃ less, fuel = less + 1 := by
        obtain ⟨c, tail, hcons, _⟩ := h.exists_cons
        rw [hcons, List.length_cons] at hfuel
        exact Nat.exists_eq_add_of_le' (by omega)
      cases h with
      | number form => exact form.skip fuel htext hrest
      | nullWord =>
          rw [Skip.valueFuel, htext]
          exact Reader.word_append ['u', 'l', 'l'] rest
      | trueWord =>
          rw [Skip.valueFuel, htext]
          exact Reader.word_append ['r', 'u', 'e'] rest
      | falseWord =>
          rw [Skip.valueFuel, htext]
          exact Reader.word_append ['a', 'l', 's', 'e'] rest
      | string inside =>
          simp only [List.cons_append, List.append_assoc, List.nil_append] at htext
          simp only [Skip.valueFuel, htext, inside.skip]
      | array inside =>
          rw [List.length_cons] at hfuel hlength
          rw [Skip.valueFuel, htext]
          cases inside with
          | empty blank => simp [blank.skipBlanks_of_follows .bracket]
          | items inside =>
              obtain ⟨c, tail, hstart, hopens⟩ := inside.exists_cons rest
              have hitems : Skip.itemsFuel fuel (c :: tail) = .ok ((), rest) :=
                inside.skip hinside (by omega) fuel rest (by omega)
                  (by rw [hstart, skipBlanks_cons _ (isBlank_of_opens hopens)])
              simp only [List.cons_append, hstart]
              split
              · rename_i heq
                cases heq
                exact absurd rfl (ne_of_opens hopens).1
              · exact hitems
      | object inside =>
          rw [List.length_cons] at hfuel hlength
          rw [Skip.valueFuel, htext]
          cases inside with
          | empty blank => simp [blank.skipBlanks_of_follows .brace]
          | members inside =>
              obtain ⟨tail, hstart⟩ := inside.exists_cons rest
              have hmembers : Skip.membersFuel fuel ('"' :: tail) = .ok ((), rest) :=
                inside.skip hinside (by omega) fuel rest (by omega)
                  (by rw [hstart, skipBlanks_cons _ (by decide)])
              simp only [List.cons_append, hstart]
              exact hmembers

/-- A value of any kind is skipped wherever it stands, nested to any depth. -/
theorem skip_value {value text rest : List Char} (h : Value value)
    (htext : skipBlanks text = value ++ rest) (hrest : Delimited rest) :
    Skip.value text = .ok ((), rest) := by
  have hlength : value.length ≤ text.length := by
    have hskip := length_skipBlanks_le text
    rw [htext, List.length_append] at hskip
    omega
  exact h.skip _ (by omega) htext hrest

end Grammar

end Json

end WeightedKripke
