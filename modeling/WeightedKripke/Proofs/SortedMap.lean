import WeightedKripke.SortedMap

/-!
# What a sorted map holds

Inserting the entries of a map one after the other gives the map back, since each
key lies behind all keys that are there already.  Any insertions leave the last value
of each key, and maps that hold the same value for each key are equal.
-/

namespace WeightedKripke

namespace SortedMap

variable {κ β : Type}

def lastValue? [DecidableEq κ] (insertions : List (κ × β)) (key : κ) : Option β :=
  insertions.reverse.lookup key

theorem lastValue?_cons [DecidableEq κ] (entry : κ × β) (rest : List (κ × β)) (key : κ) :
    lastValue? (entry :: rest) key =
      (lastValue? rest key).or (if key = entry.1 then some entry.2 else none) := by
  have hlookup : [entry].lookup key = if key = entry.1 then some entry.2 else none := by
    obtain ⟨inserted, value⟩ := entry
    by_cases h : key = inserted
    · simp [h]
    · have hne : (key == inserted) = false := by simpa using h
      simp [List.lookup_cons, hne, h]
  rw [lastValue?, List.reverse_cons, List.lookup_append, hlookup]
  rfl

variable [Ord κ]

/-- A key is found with the value of its entry, since no other entry has the key. -/
theorem get?_eq_some_iff [Std.LawfulEqOrd κ] {m : SortedMap κ β} {key : κ} {value : β} :
    m.get? key = some value ↔ (key, value) ∈ m.entries := by
  obtain ⟨entries, hascending⟩ := m
  simp only [get?]
  induction entries with
  | nil => simp
  | cons first rest ih =>
      obtain ⟨hfirst, hrest⟩ := List.pairwise_cons.1 hascending
      rw [List.find?_cons, List.mem_cons]
      by_cases h : key = first.1
      · subst h
        have habsent : (first.1, value) ∉ rest := by
          intro hmem
          have hlt := hfirst (first.1, value) hmem
          simp at hlt
        simp [habsent, Prod.ext_iff, eq_comm]
      · have hne : (compare key first.1 == .eq) = false := by simpa using h
        rw [hne, ih hrest]
        simp [Prod.ext_iff, h]

variable [Std.TransOrd κ]

theorem nodup_entries (m : SortedMap κ β) : m.entries.Nodup := by
  refine m.ascending.imp ?_
  rintro a b hlt rfl
  simp at hlt

theorem ext_get? [Std.LawfulEqOrd κ] {m n : SortedMap κ β}
    (h : ∀ key, m.get? key = n.get? key) : m = n := by
  have hmem : ∀ entry, entry ∈ m.entries ↔ entry ∈ n.entries := by
    rintro ⟨key, value⟩
    rw [← get?_eq_some_iff, ← get?_eq_some_iff, h]
  have hperm := (List.perm_ext_iff_of_nodup m.nodup_entries n.nodup_entries).2 hmem
  have hasymm : ∀ a b : κ × β, a ∈ m.entries → b ∈ n.entries →
      compare a.1 b.1 = .lt → compare b.1 a.1 = .lt → a = b := by
    intro a b _ _ hab hba
    rw [Std.OrientedCmp.gt_of_lt hba] at hab
    cases hab
  exact ext_entries (hperm.eq_of_pairwise hasymm m.ascending n.ascending)

theorem insertEntry_of_lt {key : κ} {value : β} {entries : List (κ × β)}
    (h : ∀ entry, entry ∈ entries → compare entry.1 key = .lt) :
    insertEntry key value entries = entries ++ [(key, value)] := by
  induction entries with
  | nil => rfl
  | cons first rest ih =>
      have hfirst : compare key first.1 = .gt :=
        Std.OrientedCmp.gt_of_lt (h first List.mem_cons_self)
      simp only [insertEntry, hfirst, List.cons_append]
      rw [ih fun entry hentry => h entry (List.mem_cons_of_mem first hentry)]

theorem entries_foldl_insert (rest : List (κ × β)) :
    ∀ m : SortedMap κ β,
      (m.entries ++ rest).Pairwise (fun a b => compare a.1 b.1 = .lt) →
        (rest.foldl (fun m entry => m.insert entry.1 entry.2) m).entries =
          m.entries ++ rest := by
  induction rest with
  | nil => simp
  | cons first rest ih =>
      intro m h
      have hlast : insertEntry first.1 first.2 m.entries = m.entries ++ [first] :=
        insertEntry_of_lt fun entry hentry =>
          (List.pairwise_append.1 h).2.2 entry hentry first List.mem_cons_self
      have hentries : (m.insert first.1 first.2).entries = m.entries ++ [first] := hlast
      rw [List.foldl_cons, ih, hentries, List.append_assoc, List.singleton_append]
      rwa [hentries, List.append_assoc, List.singleton_append]

theorem ofList_entries (m : SortedMap κ β) : ofList m.entries = m :=
  ext_entries (entries_foldl_insert m.entries empty m.ascending)

/-- A key that is not inserted keeps its value. -/
theorem get?_foldl_insert [DecidableEq κ] [Std.LawfulEqOrd κ] (insertions : List (κ × β))
    (m : SortedMap κ β) (key : κ) :
    (insertions.foldl (fun m entry => m.insert entry.1 entry.2) m).get? key =
      (lastValue? insertions key).or (m.get? key) := by
  induction insertions generalizing m with
  | nil => rfl
  | cons entry rest ih =>
      rw [List.foldl_cons, ih, get?_insert, lastValue?_cons, Option.or_assoc]
      by_cases h : key = entry.1 <;> simp [h]

end SortedMap

end WeightedKripke
