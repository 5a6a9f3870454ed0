import WeightedKripke.Proofs.Json.Text

/-!
# Reading back lists, maps and records

Lists and maps are read back item by item, alternatives by their name.  For
records the run is split into steps: `Fields.Fills` says what reading one written
member does to the slots, `Fields.Written` lists the members that a record is
written as, and reading them all leaves every slot filled.
-/

namespace WeightedKripke

namespace Json

theorem skipBlanks_lineBreak {style : Style} (hstyle : style.Blank) (depth : Nat) {c : Char}
    (rest : List Char) (h : isBlank c = false) :
    skipBlanks (style.lineBreak depth ++ c :: rest) = c :: rest := by
  rw [skipBlanks_append _ (hstyle.lineBreak depth), skipBlanks_cons _ h]

theorem length_le_writeItems (style : Style) (depth : Nat) (items : List Json) :
    items.length ≤ (writeItems style depth items).length := by
  induction items with
  | nil => simp
  | cons item items ih =>
      simp only [writeItems, List.length_cons, List.length_append]
      omega

theorem length_le_writeMembers (style : Style) (depth : Nat)
    (members : List (String × Json)) :
    members.length ≤ (writeMembers style depth members).length := by
  induction members with
  | nil => simp
  | cons member members ih =>
      simp only [writeMembers, List.length_cons, List.length_append]
      omega

theorem writeMember_append (style : Style) (depth : Nat) (member : String × Json)
    (rest : List Char) :
    writeMember style depth member ++ rest =
      quoted member.1 ++
        ':' :: (style.colonGap ++ (member.2.write style depth ++ rest)) := by
  obtain ⟨key, value⟩ := member
  simp [writeMember]

theorem exists_writeMember_cons (style : Style) (depth : Nat) (member : String × Json)
    (rest : List Char) :
    ∃ tail, writeMember style depth member ++ rest = '"' :: tail := by
  rw [writeMember_append, quoted, List.cons_append]
  exact ⟨_, rfl⟩

theorem skipBlanks_writeMember (style : Style) (depth : Nat) (member : String × Json)
    {blanks : List Char} (rest : List Char)
    (h : ∀ c, c ∈ blanks → isBlank c = true) :
    skipBlanks (blanks ++ (writeMember style depth member ++ rest)) =
      writeMember style depth member ++ rest := by
  obtain ⟨tail, htail⟩ := exists_writeMember_cons style depth member rest
  rw [skipBlanks_append _ h, htail, skipBlanks_cons _ (by decide)]

namespace Reader

/-! ## Lists -/

theorem itemsFuel_write {α : Type} {item : Reader α} {encode : α → Json} {style : Style}
    (hstyle : style.Blank) (depth inner : Nat) (rest : List Char) {more : List α} :
    ∀ (first : α) (fuel : Nat) {text : List Char},
      (∀ a, a ∈ first :: more → Reads item (encode a) a) → more.length < fuel →
      skipBlanks text =
        (encode first).write style inner ++ (writeItems style inner (more.map encode) ++
          (style.lineBreak depth ++ ']' :: rest)) →
      itemsFuel item fuel text = .ok (first :: more, rest) := by
  induction more with
  | nil =>
      intro first fuel text hitem hfuel htext
      obtain ⟨fuel, rfl⟩ := Nat.exists_eq_succ_of_ne_zero (Nat.ne_of_gt hfuel)
      have hread := (hitem first (by simp)).takes hstyle inner htext
        (delimited_lineBreak hstyle depth rest (Or.inl rfl))
      simp [itemsFuel, hread, bind, Except.bind, writeItems,
        skipBlanks_lineBreak hstyle depth rest (by decide : isBlank ']' = false)]
  | cons second more ih =>
      intro first fuel text hitem hfuel htext
      obtain ⟨fuel, rfl⟩ := Nat.exists_eq_succ_of_ne_zero
        (Nat.ne_of_gt (Nat.lt_of_le_of_lt (Nat.zero_le _) hfuel))
      simp only [List.map_cons, writeItems, List.cons_append, List.append_assoc] at htext
      have hread := (hitem first (by simp)).takes hstyle inner htext
        (delimited_cons _ (Or.inr (Or.inl rfl)))
      have hmore := ih second fuel
        (fun a ha => hitem a (List.mem_cons_of_mem first ha))
        (Nat.lt_of_succ_lt_succ hfuel)
        (skipBlanks_write style inner (encode second) _ (hstyle.lineBreak inner))
      simp only [itemsFuel, hread, bind, Except.bind,
        skipBlanks_cons _ (by decide : isBlank ',' = false), hmore]

theorem reads_list {α : Type} {item : Reader α} {encode : α → Json} {items : List α}
    (h : ∀ a, a ∈ items → Reads item (encode a) a) :
    Reads (list item) (.array (items.map encode)) items := by
  constructor
  intro style hstyle depth text rest htext _
  cases items with
  | nil =>
      simp only [List.map_nil, write, List.cons_append, List.nil_append] at htext
      simp [list, token_of_skipBlanks htext, bind, Except.bind,
        skipBlanks_cons rest (by decide : isBlank ']' = false)]
  | cons first more =>
      simp only [List.map_cons, write, List.cons_append, List.append_assoc,
        List.nil_append] at htext
      have hskip := skipBlanks_write style (depth + 1) (encode first)
        (writeItems style (depth + 1) (more.map encode) ++
          (style.lineBreak depth ++ ']' :: rest))
        (hstyle.lineBreak (depth + 1))
      obtain ⟨c, tail, hwrite, hopens⟩ := exists_write_cons style (depth + 1) (encode first)
      have hitems := length_le_writeItems style (depth + 1) (more.map encode)
      simp only [list, token_of_skipBlanks htext, bind, Except.bind]
      split
      · rename_i heq
        rw [hskip, hwrite, List.cons_append, List.cons.injEq] at heq
        exact absurd heq.1 (ne_of_opens hopens).1
      · rw [hskip]
        refine itemsFuel_write hstyle depth (depth + 1) rest first _ h ?_ ?_
        · simp only [hwrite, List.length_append, List.length_cons, List.length_map] at *
          omega
        · rw [hwrite, List.cons_append, skipBlanks_cons _ (isBlank_of_opens hopens)]

/-! ## Maps -/

theorem membersFuel_write {κ β : Type} {key : String → Except Fault κ} {value : Reader β}
    {name : κ → String} {encode : β → Json} {style : Style} (hstyle : style.Blank)
    (depth inner : Nat) (rest : List Char) (hkey : ∀ k, key (name k) = .ok k)
    {more : List (κ × β)} :
    ∀ (first : κ × β) (fuel : Nat) {text : List Char},
      (∀ entry, entry ∈ first :: more → Reads value (encode entry.2) entry.2) →
      more.length < fuel →
      skipBlanks text =
        writeMember style inner (name first.1, encode first.2) ++
          (writeMembers style inner (more.map fun entry => (name entry.1, encode entry.2)) ++
            (style.lineBreak depth ++ '\x7d' :: rest)) →
      membersFuel key value fuel text = .ok (first :: more, rest) := by
  induction more with
  | nil =>
      intro first fuel text hvalue hfuel htext
      obtain ⟨fuel, rfl⟩ := Nat.exists_eq_succ_of_ne_zero (Nat.ne_of_gt hfuel)
      rw [writeMember_append] at htext
      have hread := (hvalue first List.mem_cons_self).after_blanks hstyle inner hstyle.colonGap
        (delimited_lineBreak hstyle depth rest (Or.inr rfl))
      simp [membersFuel, string_quoted _ htext, hkey, token, hread, bind, Except.bind,
        writeMembers, skipBlanks_cons _ (by decide : isBlank ':' = false),
        skipBlanks_lineBreak hstyle depth rest (by decide : isBlank '\x7d' = false)]
  | cons second more ih =>
      intro first fuel text hvalue hfuel htext
      obtain ⟨fuel, rfl⟩ := Nat.exists_eq_succ_of_ne_zero
        (Nat.ne_of_gt (Nat.lt_of_le_of_lt (Nat.zero_le _) hfuel))
      simp only [List.map_cons, writeMembers, List.cons_append, List.append_assoc] at htext
      rw [writeMember_append] at htext
      have hfirst : Reads value (encode first.2) first.2 := hvalue first List.mem_cons_self
      have hmore := ih second fuel
        (fun entry hentry => hvalue entry (List.mem_cons_of_mem first hentry))
        (Nat.lt_of_succ_lt_succ hfuel)
        (skipBlanks_writeMember style inner _ _ (hstyle.lineBreak inner))
      simp only [membersFuel, string_quoted _ htext, hkey, token, bind, Except.bind,
        skipBlanks_cons _ (by decide : isBlank ':' = false), if_true,
        hfirst.after_blanks hstyle inner hstyle.colonGap
          (delimited_cons _ (Or.inr (Or.inl rfl))),
        skipBlanks_cons _ (by decide : isBlank ',' = false), hmore]

theorem reads_map {κ β : Type} {key : String → Except Fault κ} {value : Reader β}
    {name : κ → String} {encode : β → Json} {entries : List (κ × β)}
    (hkey : ∀ k, key (name k) = .ok k)
    (hvalue : ∀ entry, entry ∈ entries → Reads value (encode entry.2) entry.2) :
    Reads (map key value)
      (.object (entries.map fun entry => (name entry.1, encode entry.2))) entries := by
  constructor
  intro style hstyle depth text rest htext _
  cases entries with
  | nil =>
      simp only [List.map_nil, write, List.cons_append, List.nil_append] at htext
      simp [map, token_of_skipBlanks htext, bind, Except.bind,
        skipBlanks_cons rest (by decide : isBlank '\x7d' = false)]
  | cons first more =>
      simp only [List.map_cons, write, List.cons_append, List.append_assoc,
        List.nil_append] at htext
      have hskip := skipBlanks_writeMember style (depth + 1) (name first.1, encode first.2)
        (writeMembers style (depth + 1)
            (more.map fun entry => (name entry.1, encode entry.2)) ++
          (style.lineBreak depth ++ '\x7d' :: rest))
        (hstyle.lineBreak (depth + 1))
      obtain ⟨tail, htail⟩ := exists_writeMember_cons style (depth + 1)
        (name first.1, encode first.2)
        (writeMembers style (depth + 1)
            (more.map fun entry => (name entry.1, encode entry.2)) ++
          (style.lineBreak depth ++ '\x7d' :: rest))
      have hmembers := length_le_writeMembers style (depth + 1)
        (more.map fun entry => (name entry.1, encode entry.2))
      simp only [map, token_of_skipBlanks htext, bind, Except.bind]
      split
      · rename_i heq
        rw [hskip, htail, List.cons.injEq] at heq
        exact absurd heq.1 (by decide)
      · rw [hskip]
        refine membersFuel_write hstyle depth (depth + 1) rest hkey first _ hvalue ?_ ?_
        · have hlength := congrArg List.length htail
          simp only [List.length_append, List.length_cons, List.length_map] at *
          omega
        · rw [htail, skipBlanks_cons _ (by decide)]

/-! ## Alternatives -/

def Named {α : Type} (name : α → String) (all : List α) : Prop :=
  ∀ a, all.find? (fun other => name other == name a) = some a

theorem variant_name {α : Type} {name : α → String} {all : List α} (h : Named name all)
    (a : α) : variant name all (name a) = .ok a := by
  simp [variant, h a]

theorem reads_choice {α : Type} {name : α → String} {all : List α} (h : Named name all)
    (a : α) : Reads (choice name all) (.string (name a)) a := by
  constructor
  intro style _ depth text rest htext hrest
  have hread := Decoder.andThen_of_ok (string_quoted (name a) htext) (variant_name h a)
  unfold choice
  simp only [write, quoted, List.cons_append] at htext
  rw [htext]
  exact hread

theorem reads_tagged {κ α : Type} {name : κ → String} {all : List κ}
    {payload : κ → Reader α} (h : Named name all) {kind : κ} {value : Json} {a : α}
    (hpayload : Reads (payload kind) value a) :
    Reads (tagged name all payload) (.object [(name kind, value)]) a := by
  constructor
  intro style hstyle depth text rest htext _
  simp only [write, writeMembers, List.cons_append, List.append_assoc, List.nil_append]
    at htext
  have hkey := skipBlanks_writeMember style (depth + 1) (name kind, value)
    (style.lineBreak depth ++ '\x7d' :: rest) (hstyle.lineBreak (depth + 1))
  rw [writeMember_append] at hkey htext
  have hname := Decoder.andThen_of_ok (string_quoted (name kind) hkey) (variant_name h kind)
  have hread := hpayload.after_blanks hstyle (depth + 1) hstyle.colonGap
    (delimited_lineBreak hstyle depth rest (Or.inr rfl))
  simp [tagged, htext, hname, token, hread, bind, Except.bind,
    skipBlanks_cons _ (by decide : isBlank ':' = false),
    skipBlanks_lineBreak hstyle depth rest (by decide : isBlank '\x7d' = false)]

end Reader

/-! ## Records -/

namespace Fields

/-- Reading the value of a written member takes the slots from one state to the next. -/
def Fills {ρ σ : Type} (fields : Fields ρ σ) (slots : σ) (member : String × Json)
    (next : σ) : Prop :=
  ∀ {style : Style}, style.Blank → ∀ (depth : Nat) {rest : List Char},
    Delimited rest →
      fields.member member.1 slots
          (':' :: (style.colonGap ++ (member.2.write style depth ++ rest))) =
        .ok (next, rest)

inductive FillsAll {ρ σ : Type} (fields : Fields ρ σ) :
    σ → List (String × Json) → σ → Prop where
  | nil (slots : σ) : FillsAll fields slots [] slots
  | cons {slots middle next : σ} {member : String × Json}
      {members : List (String × Json)} (first : fields.Fills slots member middle)
      (more : FillsAll fields middle members next) :
      FillsAll fields slots (member :: members) next

/--
A record is written as these members, and reading them fills these slots.

No two members have the same name.
-/
inductive Written : {ρ σ : Type} → Fields ρ σ → ρ → List (String × Json) → σ → Prop where
  | done : Written done () [] ()
  | field {α ρ σ : Type} {name : String} {value : Reader α} {fields : Fields ρ σ} {a : α}
      {json : Json} {record : ρ} {members : List (String × Json)} {slots : σ}
      (read : Reads value json a)
      (fresh : ∀ member, member ∈ members → member.1 ≠ name)
      (rest : Written fields record members slots) :
      Written (field name value fields) (a, record) ((name, json) :: members)
        (some a, slots)

variable {α ρ σ : Type}

theorem fills_first {name : String} {value : Reader α} {fields : Fields ρ σ} {json : Json}
    {a : α} (slots : σ) (h : Reads value json a) :
    (field name value fields).Fills (none, slots) (name, json) (some a, slots) := by
  intro style hstyle depth rest hrest
  have hread := h.after_blanks hstyle depth hstyle.colonGap hrest
  simp [member, Reader.token, hread, bind, Except.bind,
    skipBlanks_cons _ (by decide : isBlank ':' = false)]

/-- A member of another name leaves a slot alone. -/
theorem fills_rest {name : String} {value : Reader α} {fields : Fields ρ σ} {slots next : σ}
    {member : String × Json} (slot : Option α) (h : fields.Fills slots member next)
    (hname : member.1 ≠ name) :
    (field name value fields).Fills (slot, slots) member (slot, next) := by
  intro style hstyle depth rest hrest
  simp [Fields.member, hname, h hstyle depth hrest, bind, Except.bind]

theorem FillsAll.of_rest {name : String} {value : Reader α} {fields : Fields ρ σ}
    {slots next : σ} {members : List (String × Json)} (slot : Option α)
    (h : fields.FillsAll slots members next)
    (hname : ∀ member, member ∈ members → member.1 ≠ name) :
    (field name value fields).FillsAll (slot, slots) members (slot, next) := by
  induction h with
  | nil slots => exact .nil _
  | cons first more ih =>
      exact .cons (fills_rest slot first (hname _ (by simp)))
        (ih fun member hmember => hname member (List.mem_cons_of_mem _ hmember))

/-- The members of a written record fill all of its slots. -/
theorem Written.fillsAll {fields : Fields ρ σ} {record : ρ}
    {members : List (String × Json)} {slots : σ}
    (h : fields.Written record members slots) :
    fields.FillsAll fields.noSlots members slots := by
  induction h with
  | done => exact .nil _
  | field read fresh rest ih =>
      exact .cons (fills_first _ read) (ih.of_rest _ fresh)

theorem Written.collect_eq {fields : Fields ρ σ} {record : ρ}
    {members : List (String × Json)} {slots : σ}
    (h : fields.Written record members slots) : fields.collect slots = .ok record := by
  induction h with
  | done => rfl
  | field read fresh rest ih => simp [collect, ih, bind, Except.bind]

theorem membersFuel_write {fields : Fields ρ σ} {style : Style} (hstyle : style.Blank)
    (depth inner : Nat) (rest : List Char) {members : List (String × Json)} :
    ∀ {first : String × Json} {slots next : σ} (fuel : Nat) {text : List Char},
      fields.FillsAll slots (first :: members) next → members.length < fuel →
      skipBlanks text =
        writeMember style inner first ++ (writeMembers style inner members ++
          (style.lineBreak depth ++ '\x7d' :: rest)) →
      fields.membersFuel fuel slots text = .ok (next, rest) := by
  induction members with
  | nil =>
      intro first slots next fuel text hfills hfuel htext
      obtain ⟨fuel, rfl⟩ := Nat.exists_eq_succ_of_ne_zero (Nat.ne_of_gt hfuel)
      cases hfills with
      | cons hfirst hmore =>
          cases hmore
          rw [writeMember_append] at htext
          have hread := hfirst hstyle inner
            (delimited_lineBreak hstyle depth rest (Or.inr rfl))
          simp [membersFuel, Reader.string_quoted _ htext, hread, bind, Except.bind,
            writeMembers,
            skipBlanks_lineBreak hstyle depth rest (by decide : isBlank '\x7d' = false)]
  | cons second members ih =>
      intro first slots next fuel text hfills hfuel htext
      obtain ⟨fuel, rfl⟩ := Nat.exists_eq_succ_of_ne_zero
        (Nat.ne_of_gt (Nat.lt_of_le_of_lt (Nat.zero_le _) hfuel))
      cases hfills with
      | cons hfirst hmore =>
          simp only [writeMembers, List.cons_append, List.append_assoc] at htext
          rw [writeMember_append] at htext
          have hrest := ih fuel hmore (Nat.lt_of_succ_lt_succ hfuel)
            (skipBlanks_writeMember style inner second _ (hstyle.lineBreak inner))
          simp only [membersFuel, Reader.string_quoted _ htext, bind, Except.bind,
            hfirst hstyle inner (delimited_cons _ (Or.inr (Or.inl rfl))),
            skipBlanks_cons _ (by decide : isBlank ',' = false), hrest]

theorem reads_record {fields : Fields ρ σ} {record : ρ} {first : String × Json}
    {more : List (String × Json)} {slots : σ}
    (h : fields.Written record (first :: more) slots) :
    Reads fields.record (.object (first :: more)) record := by
  constructor
  intro style hstyle depth text rest htext _
  simp only [write, List.cons_append, List.append_assoc, List.nil_append] at htext
  obtain ⟨tail, htail⟩ := exists_writeMember_cons style (depth + 1) first
    (writeMembers style (depth + 1) more ++ (style.lineBreak depth ++ '\x7d' :: rest))
  have hskip := (skipBlanks_writeMember style (depth + 1) first
    (writeMembers style (depth + 1) more ++ (style.lineBreak depth ++ '\x7d' :: rest))
    (hstyle.lineBreak (depth + 1))).trans htail
  have hfuel : more.length < ('"' :: tail).length := by
    have hmembers := length_le_writeMembers style (depth + 1) more
    have hlength := congrArg List.length htail
    simp only [List.length_append, List.length_cons] at *
    omega
  have hread : fields.membersFuel ('"' :: tail).length fields.noSlots ('"' :: tail) =
      .ok (slots, rest) :=
    membersFuel_write hstyle depth (depth + 1) rest _ h.fillsAll hfuel
      (by rw [htail, skipBlanks_cons _ (by decide)])
  unfold Fields.record
  simp only [htext, hskip, bind, Except.bind]
  split
  · rename_i heq
    exact absurd (List.cons.inj heq).1 (by decide)
  · simp only [hread, h.collect_eq]

end Fields

end Json

end WeightedKripke
