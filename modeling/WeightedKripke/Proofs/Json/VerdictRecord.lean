import WeightedKripke.Json.Record
import WeightedKripke.Proofs.Json.Verdict

/-!
# Lists, maps and records are judged by their own text

Lists and maps come to an outcome item by item.  A member of a map and an alternative with
its payload are both a key that is followed by a value: `keyed`.  For records the run over
the members of an object is split into steps: `Fields.Steps` says what one member does to
the slots, `Fields.Runs` what all members do one after the other.
-/

namespace WeightedKripke

namespace Json

open Grammar

variable {α β : Type}

theorem exists_fuel {n fuel : Nat} (h : n < fuel) : ∃ less, fuel = less + 1 ∧ n ≤ less := by
  cases fuel with
  | zero => exact absurd h (Nat.not_lt_zero n)
  | succ less => exact ⟨less, rfl, Nat.le_of_lt_succ h⟩

namespace Reader

/-! ## Lists -/

theorem exists_itemsFuel {item : Reader α} (h : Judges item) {values : List (List Char)}
    {items : List Char} (hitems : Items Value values items) :
    ∃ outcome, ∀ (fuel : Nat) {text : List Char} (rest : List Char),
      values.length ≤ fuel → skipBlanks text = skipBlanks (items ++ rest) →
        itemsFuel item fuel text = leaving rest outcome := by
  induction hitems with
  | last before valid after =>
      obtain ⟨first, hfirst⟩ := h.judges valid
      refine ⟨first.map fun a => [a], ?_⟩
      intro fuel text rest hfuel htext
      obtain ⟨fuel, rfl, _⟩ := exists_fuel hfuel
      simp only [List.append_assoc, List.cons_append, List.nil_append,
        valid.skipBlanks before] at htext
      have hread := hfirst.takes htext (after.delimited .bracket rest)
      cases first with
      | error fault => simp only [itemsFuel, hread, leaving, bind, Except.bind, Except.map]
      | ok a =>
          simp only [itemsFuel, hread, leaving, bind, Except.bind, Except.map,
            after.skipBlanks_of_follows .bracket]
  | more before valid after _ ih =>
      obtain ⟨first, hfirst⟩ := h.judges valid
      obtain ⟨later, hlater⟩ := ih
      refine ⟨first.bind fun a => later.map fun more => a :: more, ?_⟩
      intro fuel text rest hfuel htext
      obtain ⟨fuel, rfl, hless⟩ := exists_fuel hfuel
      simp only [List.append_assoc, List.cons_append, valid.skipBlanks before] at htext
      have hread := hfirst.takes htext (after.delimited .comma _)
      cases first with
      | error fault => simp only [itemsFuel, hread, leaving, bind, Except.bind]
      | ok a =>
          have hmore := hlater fuel rest hless rfl
          simp only [itemsFuel, hread, leaving, bind, Except.bind,
            after.skipBlanks_of_follows .comma, hmore]
          cases later <;> rfl

theorem list_refuses (item : Reader α) {c : Char} (h : c ≠ '[') : Refuses (list item) c where
  refuses starts := by
    simp only [list, (token_refuses h).refuses starts, bind, Except.bind]

theorem judges_list {item : Reader α} (h : Judges item) : Judges (list item) where
  closing := list_refuses item (by decide)
  judges valid := by
    obtain ⟨c, tail, rfl, _⟩ := valid.exists_cons
    by_cases hc : c = '['
    · subst hc
      obtain ⟨values, inside⟩ := valid.array_of_first
      cases inside with
      | empty blank =>
          refine ⟨.ok [], ⟨fun starts _ => ?_⟩⟩
          rw [List.cons_append, List.append_assoc] at starts
          simp only [list, token_of_skipBlanks starts, bind, Except.bind, List.cons_append,
            blank.skipBlanks_of_follows .bracket, leaving, List.nil_append]
      | items inside =>
          obtain ⟨outcome, houtcome⟩ := exists_itemsFuel h inside
          refine ⟨outcome, ⟨fun {text rest} starts _ => ?_⟩⟩
          obtain ⟨d, more, hstart, hopens⟩ := inside.exists_cons rest
          have hfuel := inside.length_le rest
          rw [hstart] at hfuel
          have hread : itemsFuel item (d :: more).length (d :: more) = leaving rest outcome :=
            houtcome _ rest hfuel (by rw [hstart, skipBlanks_cons _ (isBlank_of_opens hopens)])
          rw [List.cons_append] at starts
          simp only [list, token_of_skipBlanks starts, bind, Except.bind, hstart]
          split
          · rename_i heq
            cases heq
            exact absurd rfl (ne_of_opens hopens).1
          · exact hread
    · exact (list_refuses item hc).exists_takes tail

/-! ## Members -/

/-- A key, a colon and a value; the key says how the value is read. -/
def keyed {κ : Type} (key : String → Except Fault κ) (value : κ → Reader β) : Reader β :=
  fun text => do
    let (k, rest) ← Decoder.andThen string key text
    let ((), rest) ← token ':' rest
    value k rest

/-- A member comes to an outcome of its own; blanks may be left over behind its value. -/
theorem exists_keyed {κ : Type} (key : String → Except Fault κ) {value : κ → Reader β}
    (h : ∀ k, Judges (value k)) {member : List Char × List Char} {inside : List Char}
    (hmember : Member Value member inside) :
    ∃ outcome, ∀ {text rest : List Char} {c : Char}, Follows c →
      skipBlanks text = skipBlanks (inside ++ c :: rest) →
        ∃ right, Blanks right ∧
          keyed key value text = leaving (right ++ c :: rest) outcome := by
  obtain ⟨found, hfound⟩ := exists_string hmember.key
  cases hk : found.bind key with
  | error fault =>
      refine ⟨.error fault, fun hc htext => ?_⟩
      obtain ⟨behind, between, right, hkey, _, _, hright⟩ := hmember.parts htext
      refine ⟨right, hright, ?_⟩
      have hname := andThen_leaving (hfound hkey) key
      rw [hk] at hname
      simp only [keyed, hname, leaving, bind, Except.bind]
  | ok k =>
      obtain ⟨item, hitem⟩ := (h k).judges hmember.value
      refine ⟨item, fun hc htext => ?_⟩
      obtain ⟨behind, between, right, hkey, hcolon, hvalue, hright⟩ := hmember.parts htext
      refine ⟨right, hright, ?_⟩
      have hname := andThen_leaving (hfound hkey) key
      rw [hk] at hname
      simp only [keyed, hname, leaving, bind, Except.bind, token_of_skipBlanks hcolon]
      exact hitem.takes hvalue (hright.delimited hc _)

/-! ## Maps -/

def entry {κ : Type} (key : String → Except Fault κ) (value : Reader β) : Reader (κ × β) :=
  keyed key fun k => Decoder.andThen value fun v => .ok (k, v)

/-- One round of reading a map: an entry, then a comma or the closing brace. -/
theorem membersFuel_succ {κ : Type} (key : String → Except Fault κ) (value : Reader β)
    (fuel : Nat) (text : List Char) :
    membersFuel key value (fuel + 1) text = (do
      let (first, rest) ← entry key value text
      match skipBlanks rest with
      | ',' :: rest =>
          let (more, rest) ← membersFuel key value fuel rest
          .ok (first :: more, rest)
      | '\x7d' :: rest => .ok ([first], rest)
      | _ => .error .malformed) := by
  simp only [membersFuel, entry, keyed, Decoder.andThen, bind, Except.bind]
  cases string text with
  | error fault => rfl
  | ok named =>
      simp only
      cases key named.1 with
      | error fault => rfl
      | ok k =>
          simp only
          cases token ':' named.2 with
          | error fault => rfl
          | ok behind =>
              simp only
              cases value behind.2 <;> rfl

theorem exists_membersFuel {κ : Type} (key : String → Except Fault κ) {value : Reader β}
    (h : Judges value) {members : List (List Char × List Char)} {inside : List Char}
    (hmembers : Members Value members inside) :
    ∃ outcome, ∀ (fuel : Nat) {text : List Char} (rest : List Char),
      members.length ≤ fuel → skipBlanks text = skipBlanks (inside ++ rest) →
        membersFuel key value fuel text = leaving rest outcome := by
  have hentry : ∀ k : κ, Judges (Decoder.andThen value fun v => .ok (k, v)) :=
    fun k => h.andThen _
  induction hmembers with
  | last first =>
      obtain ⟨item, hitem⟩ := exists_keyed key hentry first
      refine ⟨item.map fun e => [e], ?_⟩
      intro fuel text rest hfuel htext
      obtain ⟨fuel, rfl, _⟩ := exists_fuel hfuel
      rw [List.append_assoc, List.cons_append, List.nil_append] at htext
      obtain ⟨right, hright, hread⟩ := hitem .brace htext
      rw [membersFuel_succ, entry, hread]
      cases item with
      | error fault => rfl
      | ok e =>
          simp only [leaving, bind, Except.bind, Except.map, hright.skipBlanks_of_follows .brace]
  | more first _ ih =>
      obtain ⟨item, hitem⟩ := exists_keyed key hentry first
      obtain ⟨later, hlater⟩ := ih
      refine ⟨item.bind fun e => later.map fun more => e :: more, ?_⟩
      intro fuel text rest hfuel htext
      obtain ⟨fuel, rfl, hless⟩ := exists_fuel hfuel
      rw [List.append_assoc, List.cons_append] at htext
      obtain ⟨right, hright, hread⟩ := hitem .comma htext
      have hmore := hlater fuel rest hless rfl
      rw [membersFuel_succ, entry, hread]
      cases item with
      | error fault => rfl
      | ok e =>
          simp only [leaving, bind, Except.bind, hright.skipBlanks_of_follows .comma, hmore]
          cases later <;> rfl

theorem map_refuses {κ : Type} (key : String → Except Fault κ) (value : Reader β) {c : Char}
    (h : c ≠ '\x7b') : Refuses (map key value) c where
  refuses starts := by
    simp only [map, (token_refuses h).refuses starts, bind, Except.bind]

theorem judges_map {κ : Type} (key : String → Except Fault κ) {value : Reader β}
    (h : Judges value) : Judges (map key value) where
  closing := map_refuses key value (by decide)
  judges valid := by
    obtain ⟨c, tail, rfl, _⟩ := valid.exists_cons
    by_cases hc : c = '\x7b'
    · subst hc
      obtain ⟨members, inside⟩ := valid.object_of_first
      cases inside with
      | empty blank =>
          refine ⟨.ok [], ⟨fun starts _ => ?_⟩⟩
          rw [List.cons_append, List.append_assoc] at starts
          simp only [map, token_of_skipBlanks starts, bind, Except.bind, List.cons_append,
            blank.skipBlanks_of_follows .brace, leaving, List.nil_append]
      | members inside =>
          obtain ⟨outcome, houtcome⟩ := exists_membersFuel key h inside
          refine ⟨outcome, ⟨fun {text rest} starts _ => ?_⟩⟩
          obtain ⟨more, hstart⟩ := inside.exists_cons rest
          have hfuel := inside.length_le rest
          rw [hstart] at hfuel
          have hread : membersFuel key value ('"' :: more).length ('"' :: more) =
              leaving rest outcome :=
            houtcome _ rest hfuel (by rw [hstart, skipBlanks_cons _ (by decide)])
          rw [List.cons_append] at starts
          simp only [map, token_of_skipBlanks starts, bind, Except.bind, hstart]
          exact hread
    · exact (map_refuses key value hc).exists_takes tail

/-! ## Alternatives -/

theorem tagged_object {κ : Type} (name : κ → String) (all : List κ) (payload : κ → Reader α)
    {text inside : List Char} (starts : skipBlanks text = '\x7b' :: inside) :
    tagged name all payload text = (do
      let (a, rest) ← keyed (variant name all) payload inside
      let ((), rest) ← token '\x7d' rest
      .ok (a, rest)) := by
  simp only [tagged, starts, keyed, bind, Except.bind]
  cases Decoder.andThen string (variant name all) inside with
  | error fault => rfl
  | ok first =>
      cases hcolon : token ':' first.2 with
      | error fault => simp only [hcolon]
      | ok second => simp only [hcolon]

/-- An alternative without payload is one with null for it. -/
theorem choice_object {name : α → String} {all : List α} {text inside : List Char}
    (starts : skipBlanks text = '\x7b' :: inside) :
    choice name all text =
      tagged name all (fun a => Decoder.andThen null fun _ => .ok a) text := by
  rw [choice, tagged, starts]
  refine bind_congr fun ⟨a, behind⟩ => bind_congr fun ⟨_, between⟩ => ?_
  simp only [Decoder.andThen, bind, Except.bind]
  cases null between <;> rfl

/-- The single member decides; with further members the closing brace is missed. -/
theorem exists_takes_tagged {κ : Type} (name : κ → String) (all : List κ)
    {payload : κ → Reader α} (h : ∀ kind, Judges (payload kind))
    {members : List (List Char × List Char)} {inside : List Char}
    (hinside : ObjectBody Value members inside) :
    ∃ outcome, Takes (tagged name all payload) ('\x7b' :: inside) outcome := by
  cases hinside with
  | empty blank =>
      refine ⟨.error .malformed, ⟨fun {text rest} starts _ => ?_⟩⟩
      rw [List.cons_append, List.append_assoc] at starts
      have hclose := (string_refuses (by decide)).refuses (blank.skipBlanks_of_follows .brace rest)
      rw [tagged_object name all payload starts]
      simp only [keyed, Decoder.andThen, List.cons_append, List.nil_append, hclose, bind,
        Except.bind, leaving]
  | members hmembers =>
      cases hmembers with
      | last first =>
          obtain ⟨outcome, houtcome⟩ := exists_keyed (variant name all) h first
          refine ⟨outcome, ⟨fun {text rest} starts _ => ?_⟩⟩
          rw [List.cons_append, List.append_assoc] at starts
          obtain ⟨right, hright, hread⟩ := houtcome .brace rfl
          have hclose := token_of_skipBlanks (hright.skipBlanks_of_follows .brace rest)
          rw [tagged_object name all payload starts, List.cons_append, List.nil_append, hread]
          cases outcome with
          | error fault => rfl
          | ok a => simp only [leaving, bind, Except.bind, hclose]
      | more first _ =>
          have hmissed : Refuses (token '\x7d') ',' := token_refuses (by decide)
          obtain ⟨outcome, houtcome⟩ := exists_keyed (variant name all) h first
          refine ⟨outcome.bind fun _ => .error .malformed, ⟨fun {text rest} starts _ => ?_⟩⟩
          rw [List.cons_append, List.append_assoc] at starts
          obtain ⟨right, hright, hread⟩ := houtcome .comma rfl
          rw [tagged_object name all payload starts, List.cons_append, hread]
          cases outcome with
          | error fault => rfl
          | ok a =>
              simp only [leaving, bind, Except.bind,
                hmissed.refuses (hright.skipBlanks_of_follows .comma _)]

theorem choice_refuses (name : α → String) (all : List α) {c : Char} (hquote : c ≠ '"')
    (hbrace : c ≠ '\x7b') : Refuses (choice name all) c where
  refuses starts := by
    rw [choice, starts]
    split
    · rename_i heq
      cases heq
      exact absurd rfl hquote
    · rename_i heq
      cases heq
      exact absurd rfl hbrace
    · rfl

theorem tagged_refuses {κ : Type} (name : κ → String) (all : List κ) (payload : κ → Reader α)
    {c : Char} (hquote : c ≠ '"') (hbrace : c ≠ '\x7b') :
    Refuses (tagged name all payload) c where
  refuses starts := by
    rw [tagged, starts]
    split
    · rename_i heq
      cases heq
      exact absurd rfl hquote
    · rename_i heq
      cases heq
      exact absurd rfl hbrace
    · rfl

theorem judges_choice (name : α → String) (all : List α) : Judges (choice name all) where
  closing := choice_refuses name all (by decide) (by decide)
  judges valid := by
    obtain ⟨c, tail, rfl, _⟩ := valid.exists_cons
    by_cases hquote : c = '"'
    · subst hquote
      obtain ⟨outcome, houtcome⟩ := (judges_string.andThen (variant name all)).judges valid
      refine ⟨outcome, ⟨fun starts ends => ?_⟩⟩
      rw [← houtcome.takes starts ends, choice, starts]
      rfl
    · by_cases hbrace : c = '\x7b'
      · subst hbrace
        obtain ⟨members, inside⟩ := valid.object_of_first
        obtain ⟨outcome, houtcome⟩ :=
          exists_takes_tagged name all (fun a => judges_null.andThen fun _ => .ok a) inside
        refine ⟨outcome, ⟨fun starts ends => ?_⟩⟩
        rw [← houtcome.takes starts ends, choice_object starts]
      · exact (choice_refuses name all hquote hbrace).exists_takes tail

theorem judges_tagged {κ : Type} (name : κ → String) (all : List κ) {payload : κ → Reader α}
    (h : ∀ kind, Judges (payload kind)) : Judges (tagged name all payload) where
  closing := tagged_refuses name all payload (by decide) (by decide)
  judges valid := by
    obtain ⟨c, tail, rfl, _⟩ := valid.exists_cons
    by_cases hquote : c = '"'
    · subst hquote
      obtain ⟨found, hfound⟩ := (judges_string.andThen (variant name all)).judges valid
      refine ⟨found.bind fun _ => .error .malformed, ⟨fun {text rest} starts ends => ?_⟩⟩
      have hread := hfound.takes starts ends
      rw [tagged, starts]
      simp only [List.cons_append, hread]
      cases found <;> rfl
    · by_cases hbrace : c = '\x7b'
      · subst hbrace
        obtain ⟨members, inside⟩ := valid.object_of_first
        exact exists_takes_tagged name all h inside
      · exact (tagged_refuses name all payload hquote hbrace).exists_takes tail

end Reader

/-! ## Members of records -/

namespace Fields

variable {ρ σ : Type}

def Judged : {ρ σ : Type} → Fields ρ σ → Prop
  | _, _, done => True
  | _, _, field _ value rest => Judges value ∧ rest.Judged

/-- The value of a member of this name takes the slots to this outcome. -/
structure TakesMember (fields : Fields ρ σ) (name : String) (slots : σ) (value : List Char)
    (outcome : Except Fault σ) : Prop where
  takes {text between rest : List Char} (colon : skipBlanks text = ':' :: between)
    (starts : skipBlanks between = value ++ rest) (ends : Delimited rest) :
    fields.member name slots text = leaving rest outcome

/-- A member that no field is named for is skipped. -/
theorem takesMember_done (name : String) {value : List Char} (h : Value value) :
    done.TakesMember name () value (.ok ()) where
  takes colon starts ends := by
    simp only [member, Reader.token_of_skipBlanks colon, skip_value h starts ends, bind,
      Except.bind, leaving]

theorem takesMember_first {name : String} {reader : Reader α} {fields : Fields ρ σ}
    {value : List Char} {outcome : Except Fault α} (slots : σ)
    (h : Takes reader value outcome) :
    (field name reader fields).TakesMember name (none, slots) value
      (outcome.map fun a => (some a, slots)) where
  takes colon starts ends := by
    simp only [member, if_true, Reader.token_of_skipBlanks colon, h.takes starts ends, bind,
      Except.bind]
    cases outcome <;> rfl

theorem takesMember_duplicate {name : String} {reader : Reader α} {fields : Fields ρ σ}
    {value : List Char} (a : α) (slots : σ) :
    (field name reader fields).TakesMember name (some a, slots) value
      (.error (.duplicateField name)) where
  takes _ _ _ := by
    simp only [member, if_true, leaving]

theorem TakesMember.of_rest {name other : String} {reader : Reader α} {fields : Fields ρ σ}
    {slots : σ} {value : List Char} {outcome : Except Fault σ} (slot : Option α)
    (h : fields.TakesMember other slots value outcome) (hname : other ≠ name) :
    (field name reader fields).TakesMember other (slot, slots) value
      (outcome.map fun next => (slot, next)) where
  takes colon starts ends := by
    simp only [member, if_neg hname, h.takes colon starts ends, bind, Except.bind]
    cases outcome <;> rfl

theorem exists_takesMember {fields : Fields ρ σ} (h : fields.Judged) (name : String)
    {value : List Char} (valid : Value value) (slots : σ) :
    ∃ outcome, fields.TakesMember name slots value outcome := by
  induction fields with
  | done => exact ⟨_, takesMember_done name valid⟩
  | field other reader fields ih =>
      obtain ⟨slot, slots⟩ := slots
      by_cases hname : name = other
      · subst hname
        cases slot with
        | some a => exact ⟨_, takesMember_duplicate a slots⟩
        | none =>
            obtain ⟨outcome, htakes⟩ := h.1.judges valid
            exact ⟨_, takesMember_first slots htakes⟩
      · obtain ⟨outcome, htakes⟩ := ih h.2 slots
        exact ⟨_, htakes.of_rest slot hname⟩

/-- One member, its key included, takes the slots to this outcome. -/
structure Steps (fields : Fields ρ σ) (slots : σ) (member : List Char × List Char)
    (outcome : Except Fault σ) : Prop where
  steps {text behind between rest : List Char}
    (key : skipBlanks text = '"' :: (member.1 ++ '"' :: behind))
    (colon : skipBlanks behind = ':' :: between)
    (starts : skipBlanks between = member.2 ++ rest) (ends : Delimited rest) :
    (do
      let (name, more) ← Reader.string text
      fields.member name slots more) = leaving rest outcome

theorem TakesMember.steps {fields : Fields ρ σ} {slots : σ} {body characters value : List Char}
    {outcome : Except Fault σ} (hkey : Spells body characters)
    (h : fields.TakesMember (String.ofList characters) slots value outcome) :
    fields.Steps slots (body, value) outcome where
  steps key colon starts ends := by
    simp only [Reader.string, Reader.token_of_skipBlanks key, Reader.stringBody_spells hkey, bind,
      Except.bind]
    exact h.takes colon starts ends

theorem exists_steps {fields : Fields ρ σ} (h : fields.Judged) (slots : σ)
    {member : List Char × List Char} (hkey : StringBody member.1) (hvalue : Value member.2) :
    ∃ outcome, fields.Steps slots member outcome := by
  obtain ⟨found, hfound⟩ := Reader.exists_string hkey
  cases found with
  | error fault =>
      refine ⟨.error fault, ⟨fun key _ _ _ => ?_⟩⟩
      simp only [hfound key, leaving, bind, Except.bind]
  | ok name =>
      obtain ⟨outcome, htakes⟩ := exists_takesMember h name hvalue slots
      refine ⟨outcome, ⟨fun key colon starts ends => ?_⟩⟩
      simp only [hfound key, leaving, bind, Except.bind]
      exact htakes.takes colon starts ends

/-- Members in their order take the slots to this outcome; the first fault ends the run. -/
inductive Runs (fields : Fields ρ σ) :
    σ → List (List Char × List Char) → Except Fault σ → Prop where
  | done (slots : σ) : Runs fields slots [] (.ok slots)
  | fault {slots : σ} {member : List Char × List Char} {members : List (List Char × List Char)}
      {fault : Fault} (first : fields.Steps slots member (.error fault)) :
      Runs fields slots (member :: members) (.error fault)
  | more {slots middle : σ} {member : List Char × List Char}
      {members : List (List Char × List Char)} {outcome : Except Fault σ}
      (first : fields.Steps slots member (.ok middle))
      (more : Runs fields middle members outcome) : Runs fields slots (member :: members) outcome

theorem exists_runs {fields : Fields ρ σ} (h : fields.Judged)
    {members : List (List Char × List Char)}
    (hmembers : ∀ member, member ∈ members → StringBody member.1 ∧ Value member.2)
    (slots : σ) : ∃ outcome, fields.Runs slots members outcome := by
  induction members generalizing slots with
  | nil => exact ⟨_, .done slots⟩
  | cons member members ih =>
      obtain ⟨hkey, hvalue⟩ := hmembers member List.mem_cons_self
      obtain ⟨step, hstep⟩ := exists_steps h slots hkey hvalue
      cases step with
      | error fault => exact ⟨_, .fault hstep⟩
      | ok middle =>
          obtain ⟨outcome, hrun⟩ :=
            ih (fun other hother => hmembers other (List.mem_cons_of_mem member hother)) middle
          exact ⟨outcome, .more hstep hrun⟩

/-- One round of reading members: a step, then a comma or the closing brace. -/
theorem membersFuel_of_steps {fields : Fields ρ σ} {slots : σ}
    {member : List Char × List Char} {step : Except Fault σ}
    (h : fields.Steps slots member step) (fuel : Nat)
    {text behind between right rest : List Char} {c : Char}
    (hkey : skipBlanks text = '"' :: (member.1 ++ '"' :: behind))
    (hcolon : skipBlanks behind = ':' :: between)
    (hvalue : skipBlanks between = member.2 ++ (right ++ c :: rest)) (hright : Blanks right)
    (hc : Follows c) :
    fields.membersFuel (fuel + 1) slots text = step.bind fun next =>
      match c :: rest with
      | ',' :: rest => fields.membersFuel fuel next rest
      | '\x7d' :: rest => .ok (next, rest)
      | _ => .error .malformed := by
  have hstep := h.steps hkey hcolon hvalue (hright.delimited hc rest)
  have hsplit : fields.membersFuel (fuel + 1) slots text =
      (do
        let (name, more) ← Reader.string text
        fields.member name slots more) >>= fun (next, more) =>
          match skipBlanks more with
          | ',' :: rest => fields.membersFuel fuel next rest
          | '\x7d' :: rest => .ok (next, rest)
          | _ => .error .malformed := by
    simp only [membersFuel]
    cases Reader.string text <;> rfl
  rw [hsplit, hstep]
  cases step with
  | error fault => rfl
  | ok next => simp only [leaving, bind, Except.bind, hright.skipBlanks_of_follows hc]

/-- The members of an object are read as their run says. -/
theorem Runs.membersFuel_eq {fields : Fields ρ σ} {members : List (List Char × List Char)}
    {inside : List Char} (h : Members Value members inside) :
    ∀ {slots : σ} {outcome : Except Fault σ}, fields.Runs slots members outcome →
      ∀ (fuel : Nat) {text : List Char} (rest : List Char), members.length ≤ fuel →
        skipBlanks text = skipBlanks (inside ++ rest) →
          fields.membersFuel fuel slots text = leaving rest outcome := by
  induction h with
  | last first =>
      intro slots outcome hrun fuel text rest hfuel htext
      obtain ⟨fuel, rfl, _⟩ := exists_fuel hfuel
      rw [List.append_assoc, List.cons_append, List.nil_append] at htext
      obtain ⟨behind, between, right, hkey, hcolon, hvalue, hright⟩ := first.parts htext
      cases hrun with
      | fault step =>
          exact membersFuel_of_steps step fuel hkey hcolon hvalue hright .brace
      | more step hrun =>
          cases hrun
          exact membersFuel_of_steps step fuel hkey hcolon hvalue hright .brace
  | more first _ ih =>
      intro slots outcome hrun fuel text rest hfuel htext
      obtain ⟨fuel, rfl, hless⟩ := exists_fuel hfuel
      rw [List.append_assoc, List.cons_append] at htext
      obtain ⟨behind, between, right, hkey, hcolon, hvalue, hright⟩ := first.parts htext
      cases hrun with
      | fault step =>
          exact membersFuel_of_steps step fuel hkey hcolon hvalue hright .comma
      | more step hrun =>
          refine (membersFuel_of_steps step fuel hkey hcolon hvalue hright .comma).trans ?_
          exact ih hrun fuel rest hless rfl

/-- A record in the form of an object is read as the run over its members says. -/
theorem Runs.takes_record {fields : Fields ρ σ} {members : List (List Char × List Char)}
    {inside : List Char} {outcome : Except Fault σ}
    (hrun : fields.Runs fields.noSlots members outcome)
    (h : ObjectBody Value members inside) :
    Takes fields.record ('\x7b' :: inside) (outcome.bind fields.collect) where
  takes {text rest} starts _ := by
    cases h with
    | empty blank =>
        cases hrun
        rw [List.cons_append, List.append_assoc] at starts
        simp only [record, starts, bind, Except.bind, List.cons_append, List.nil_append,
          blank.skipBlanks_of_follows .brace]
        cases fields.collect fields.noSlots <;> rfl
    | members hmembers =>
        obtain ⟨tail, hstart⟩ := hmembers.exists_cons rest
        have hfuel := hmembers.length_le rest
        rw [hstart] at hfuel
        have hread : fields.membersFuel ('"' :: tail).length fields.noSlots ('"' :: tail) =
            leaving rest outcome :=
          hrun.membersFuel_eq hmembers _ rest hfuel
            (by rw [hstart, skipBlanks_cons _ (by decide)])
        have hrecord : fields.record text = (do
            let (slots, rest) ←
              fields.membersFuel ('"' :: tail).length fields.noSlots ('"' :: tail)
            let a ← fields.collect slots
            .ok (a, rest)) := by
          rw [List.cons_append] at starts
          simp only [record, starts, hstart]
          rfl
        rw [hrecord, hread]
        cases outcome with
        | error fault => rfl
        | ok slots =>
            simp only [leaving, bind, Except.bind]
            cases fields.collect slots <;> rfl

/-! ## Records as arrays -/

/-- The value of the first field is taken, then the other fields. -/
theorem items_first {name : String} {reader : Reader α} {fields : Fields ρ σ}
    {text more rest : List Char} {first : Except Fault α} {later : Except Fault ρ}
    (hfirst : reader text = leaving more first)
    (hlater : fields.items false more = leaving rest later) :
    (field name reader fields).items true text =
      leaving rest (first.bind fun a => later.map fun record => (a, record)) := by
  simp only [items, if_true, bind, Except.bind, hfirst]
  cases first with
  | error fault => rfl
  | ok a =>
      simp only [leaving, hlater]
      cases later <;> rfl

/-- Behind a comma the fields are read as from the first one on. -/
theorem items_comma {name : String} {reader : Reader α} {fields : Fields ρ σ}
    {text rest : List Char} (h : skipBlanks text = ',' :: rest) :
    (field name reader fields).items false text = (field name reader fields).items true rest := by
  simp only [items, Bool.false_eq_true, if_false, Reader.token_of_skipBlanks h, bind, Except.bind]
  rfl

/-- What the fields come to where the array ends. -/
theorem exists_items_closing (fields : Fields ρ σ) :
    ∃ outcome, ∀ {text rest : List Char}, skipBlanks text = ']' :: rest →
      fields.items false text = leaving rest outcome := by
  cases fields with
  | done =>
      refine ⟨.ok (), fun starts => ?_⟩
      simp only [items, Reader.token_of_skipBlanks starts, bind, Except.bind, leaving]
  | field name reader fields =>
      have hcomma : Refuses (Reader.token ',') ']' := Reader.token_refuses (by decide)
      refine ⟨.error .malformed, fun starts => ?_⟩
      simp only [items, Bool.false_eq_true, if_false, hcomma.refuses starts, bind, Except.bind,
        leaving]

/-- Items that are left over when all fields are read are too many. -/
theorem items_done_refuses {c : Char} (h : c ≠ ']') (first : Bool) :
    Refuses (done.items first) c where
  refuses starts := by
    simp only [items, (Reader.token_refuses h).refuses starts, bind, Except.bind]

theorem items_done {values : List (List Char)} {inside text rest : List Char}
    (h : Items Value values inside) (starts : skipBlanks text = skipBlanks (inside ++ rest)) :
    done.items true text = .error .malformed := by
  obtain ⟨c, tail, hcons, hopens⟩ := h.exists_cons rest
  exact (items_done_refuses (ne_of_opens hopens).1 true).refuses (starts.trans hcons)

/-- Behind a value the other fields come to an outcome if they do at the next item. -/
theorem exists_items_behind {fields : Fields ρ σ} {inside : List Char}
    (h : ∃ outcome, ∀ {text rest : List Char},
      skipBlanks text = skipBlanks (inside ++ rest) →
        fields.items true text = leaving rest outcome) :
    ∃ outcome, ∀ {text rest : List Char}, skipBlanks text = ',' :: (inside ++ rest) →
      fields.items false text = leaving rest outcome := by
  cases fields with
  | done =>
      exact ⟨.error .malformed, fun starts =>
        (items_done_refuses (by decide) false).refuses starts⟩
  | field name reader fields =>
      obtain ⟨outcome, houtcome⟩ := h
      exact ⟨outcome, fun starts => (items_comma starts).trans (houtcome rfl)⟩

theorem exists_items {values : List (List Char)} {inside : List Char}
    (hitems : Items Value values inside) :
    ∀ {ρ σ : Type} {fields : Fields ρ σ}, fields.Judged →
      ∃ outcome, ∀ {text rest : List Char},
        skipBlanks text = skipBlanks (inside ++ rest) →
          fields.items true text = leaving rest outcome := by
  induction hitems with
  | last before valid after =>
      intro ρ σ fields h
      cases fields with
      | done => exact ⟨.error .malformed, items_done (.last before valid after)⟩
      | field name reader fields =>
          obtain ⟨first, hfirst⟩ := h.1.judges valid
          obtain ⟨later, hlater⟩ := exists_items_closing fields
          refine ⟨first.bind fun a => later.map fun record => (a, record), ?_⟩
          intro text rest starts
          simp only [List.append_assoc, List.cons_append, List.nil_append,
            valid.skipBlanks before] at starts
          exact items_first (hfirst.takes starts (after.delimited .bracket rest))
            (hlater (after.skipBlanks_of_follows .bracket rest))
  | more before valid after more ih =>
      intro ρ σ fields h
      cases fields with
      | done => exact ⟨.error .malformed, items_done (.more before valid after more)⟩
      | field name reader fields =>
          obtain ⟨first, hfirst⟩ := h.1.judges valid
          obtain ⟨later, hlater⟩ := exists_items_behind (ih h.2)
          refine ⟨first.bind fun a => later.map fun record => (a, record), ?_⟩
          intro text rest starts
          simp only [List.append_assoc, List.cons_append, valid.skipBlanks before] at starts
          exact items_first (hfirst.takes starts (after.delimited .comma _))
            (hlater (after.skipBlanks_of_follows .comma _))

/-- The outcome where the array has no items. -/
theorem exists_items_empty {fields : Fields ρ σ} (h : fields.Judged) :
    ∃ outcome, ∀ {text rest : List Char}, skipBlanks text = ']' :: rest →
      fields.items true text = leaving rest outcome := by
  cases fields with
  | done => exact exists_items_closing done
  | field name reader fields =>
      refine ⟨.error .malformed, fun starts => ?_⟩
      simp only [items, if_true, bind, Except.bind, h.1.closing.refuses starts, leaving]

theorem exists_takes_items {fields : Fields ρ σ} (h : fields.Judged)
    {values : List (List Char)} {inside : List Char} (hinside : ArrayBody Value values inside) :
    ∃ outcome, Takes fields.record ('[' :: inside) outcome := by
  have hrecord : ∀ {text rest : List Char}, skipBlanks text = '[' :: inside ++ rest →
      fields.record text = fields.items true (inside ++ rest) := by
    intro text rest starts
    rw [record, starts]
    rfl
  cases hinside with
  | empty blank =>
      obtain ⟨outcome, houtcome⟩ := exists_items_empty h
      refine ⟨outcome, ⟨fun {text rest} starts _ => (hrecord starts).trans (houtcome ?_)⟩⟩
      rw [List.append_assoc]
      exact blank.skipBlanks_of_follows .bracket rest
  | items hitems =>
      obtain ⟨outcome, houtcome⟩ := exists_items hitems h
      exact ⟨outcome, ⟨fun starts _ => (hrecord starts).trans (houtcome rfl)⟩⟩

theorem record_refuses (fields : Fields ρ σ) {c : Char} (hbrace : c ≠ '\x7b')
    (hbracket : c ≠ '[') : Refuses fields.record c where
  refuses starts := by
    rw [record, starts]
    split
    · rename_i heq
      cases heq
      exact absurd rfl hbrace
    · rename_i heq
      cases heq
      exact absurd rfl hbracket
    · rfl

theorem judges_record {fields : Fields ρ σ} (h : fields.Judged) : Judges fields.record where
  closing := record_refuses fields (by decide) (by decide)
  judges valid := by
    obtain ⟨c, tail, rfl, _⟩ := valid.exists_cons
    by_cases hbrace : c = '\x7b'
    · subst hbrace
      obtain ⟨members, inside⟩ := valid.object_of_first
      obtain ⟨outcome, hrun⟩ := exists_runs h inside.forall fields.noSlots
      exact ⟨_, hrun.takes_record inside⟩
    · by_cases hbracket : c = '['
      · subst hbracket
        obtain ⟨values, inside⟩ := valid.array_of_first
        exact exists_takes_items h inside
      · exact (record_refuses fields hbrace hbracket).exists_takes tail

end Fields

end Json

end WeightedKripke
