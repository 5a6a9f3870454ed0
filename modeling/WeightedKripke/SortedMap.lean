/-!
# Sorted maps

A finite map kept as its list of entries with strictly ascending keys.  A map has
one such list, so maps are equal exactly when they hold the same entries, in
whatever order these were inserted.
-/

namespace WeightedKripke

/-- Entries with strictly ascending keys. -/
structure SortedMap (κ : Type) (β : Type) [Ord κ] where
  entries : List (κ × β)
  ascending : entries.Pairwise fun a b => compare a.1 b.1 = .lt
deriving DecidableEq

namespace SortedMap

variable {κ β : Type} [Ord κ]

theorem ext_entries {m n : SortedMap κ β} (h : m.entries = n.entries) : m = n := by
  cases m
  cases n
  cases h
  rfl

def compareEntries [Ord β] : κ × β → κ × β → Ordering :=
  compareLex (compareOn Prod.fst) (compareOn Prod.snd)

instance [Std.TransOrd κ] [Ord β] [Std.TransOrd β] :
    Std.TransCmp (compareEntries (κ := κ) (β := β)) := by
  unfold compareEntries
  infer_instance

instance [Std.LawfulEqOrd κ] [Ord β] [Std.LawfulEqOrd β] :
    Std.LawfulEqCmp (compareEntries (κ := κ) (β := β)) where
  compare_self := by
    intro a
    simp [compareEntries, compareLex, compareOn, Std.ReflCmp.compare_self]
  eq_of_compare := by
    intro a b h
    simp only [compareEntries, compareLex, compareOn, Ordering.then_eq_eq,
      Std.LawfulEqCmp.compare_eq_iff_eq] at h
    exact Prod.ext h.1 h.2

/--
Maps compare entry by entry; fewer entries come first where one list starts the
other.
-/
instance [Ord β] : Ord (SortedMap κ β) :=
  ⟨fun m n => List.compareLex compareEntries m.entries n.entries⟩

theorem compare_def [Ord β] (m n : SortedMap κ β) :
    compare m n = List.compareLex compareEntries m.entries n.entries := rfl

instance [Std.TransOrd κ] [Ord β] [Std.TransOrd β] : Std.TransOrd (SortedMap κ β) where
  eq_swap {m n} := by
    rw [compare_def, compare_def]
    exact Std.OrientedCmp.eq_swap
  isLE_trans {m n k} hmn hnk := by
    rw [compare_def] at *
    exact Std.TransCmp.isLE_trans hmn hnk

instance [Std.LawfulEqOrd κ] [Ord β] [Std.LawfulEqOrd β] :
    Std.LawfulEqOrd (SortedMap κ β) where
  compare_self {m} := by
    rw [compare_def]
    exact Std.ReflCmp.compare_self
  eq_of_compare {m n} h := by
    rw [compare_def] at h
    exact ext_entries (Std.LawfulEqCmp.eq_of_compare h)

def empty : SortedMap κ β := ⟨[], List.Pairwise.nil⟩

def size (m : SortedMap κ β) : Nat :=
  m.entries.length

def get? (m : SortedMap κ β) (key : κ) : Option β :=
  (m.entries.find? fun entry => compare key entry.1 == .eq).map (·.2)

/-- Put an entry into an ascending list; a key that is present gets the new value. -/
def insertEntry (key : κ) (value : β) : List (κ × β) → List (κ × β)
  | [] => [(key, value)]
  | entry :: rest =>
      match compare key entry.1 with
      | .lt => (key, value) :: entry :: rest
      | .eq => (entry.1, value) :: rest
      | .gt => entry :: insertEntry key value rest

theorem mem_keys_insertEntry {key : κ} {value : β} {entries : List (κ × β)}
    {entry : κ × β} (h : entry ∈ insertEntry key value entries) :
    entry.1 = key ∨ ∃ other, other ∈ entries ∧ other.1 = entry.1 := by
  induction entries with
  | nil =>
      simp only [insertEntry, List.mem_singleton] at h
      exact Or.inl (by rw [h])
  | cons first rest ih =>
      unfold insertEntry at h
      split at h
      · rcases List.mem_cons.1 h with h | h
        · exact Or.inl (by rw [h])
        · exact Or.inr ⟨entry, h, rfl⟩
      · rcases List.mem_cons.1 h with h | h
        · exact Or.inr ⟨first, List.mem_cons_self, by rw [h]⟩
        · exact Or.inr ⟨entry, List.mem_cons_of_mem first h, rfl⟩
      · rcases List.mem_cons.1 h with h | h
        · exact Or.inr ⟨first, List.mem_cons_self, by rw [h]⟩
        · rcases ih h with h | ⟨other, hmem, hkey⟩
          · exact Or.inl h
          · exact Or.inr ⟨other, List.mem_cons_of_mem first hmem, hkey⟩

theorem insertEntry_ascending [Std.TransOrd κ] (key : κ) (value : β)
    {entries : List (κ × β)}
    (h : entries.Pairwise fun a b => compare a.1 b.1 = .lt) :
    (insertEntry key value entries).Pairwise fun a b => compare a.1 b.1 = .lt := by
  induction entries with
  | nil => simp [insertEntry]
  | cons first rest ih =>
      have hrest := List.pairwise_cons.1 h
      unfold insertEntry
      split
      · rename_i hlt
        refine List.pairwise_cons.2 ⟨?_, h⟩
        intro entry hentry
        rcases List.mem_cons.1 hentry with hentry | hentry
        · rw [hentry]
          exact hlt
        · exact Std.TransCmp.lt_trans hlt (hrest.1 entry hentry)
      · exact List.pairwise_cons.2 ⟨hrest.1, hrest.2⟩
      · rename_i hgt
        refine List.pairwise_cons.2 ⟨?_, ih hrest.2⟩
        intro entry hentry
        rcases mem_keys_insertEntry hentry with hkey | ⟨other, hmem, hkey⟩
        · rw [hkey]
          exact Std.OrientedCmp.lt_of_gt hgt
        · rw [← hkey]
          exact hrest.1 other hmem

def insert [Std.TransOrd κ] (m : SortedMap κ β) (key : κ) (value : β) : SortedMap κ β where
  entries := insertEntry key value m.entries
  ascending := insertEntry_ascending key value m.ascending

theorem find?_insertEntry [Std.TransOrd κ] (key other : κ) (value : β)
    (entries : List (κ × β)) :
    ((insertEntry key value entries).find? fun entry => compare other entry.1 == .eq).map
        (·.2) =
      if compare other key = .eq then
        some value
      else
        (entries.find? fun entry => compare other entry.1 == .eq).map (·.2) := by
  induction entries with
  | nil => by_cases h : compare other key = .eq <;> simp [insertEntry, h]
  | cons entry rest ih =>
      unfold insertEntry
      split
      · by_cases h : compare other key = .eq <;> simp [List.find?_cons, h]
      · rename_i heq
        have hcongr : compare other key = compare other entry.1 :=
          Std.TransCmp.congr_right heq
        by_cases h : compare other key = .eq
        · simp [← hcongr, h]
        · simp [← hcongr, h]
      · rename_i hgt
        by_cases h : compare other key = .eq
        · have hne : (compare other entry.1 == .eq) = false := by
            rw [Std.TransCmp.congr_left h, hgt]
            rfl
          rw [List.find?_cons, hne]
          simpa [h] using ih
        · by_cases hentry : compare other entry.1 = .eq
          · simp [hentry, h]
          · have hne : (compare other entry.1 == .eq) = false := by simpa using hentry
            rw [List.find?_cons, hne, List.find?_cons, hne]
            exact ih
theorem get?_insert [Std.TransOrd κ] (m : SortedMap κ β) (key other : κ) (value : β) :
    (m.insert key value).get? other =
      if compare other key = .eq then some value else m.get? other :=
  find?_insertEntry key other value m.entries

/-- The map of a list of entries, inserted from the left. -/
def ofList [Std.TransOrd κ] (entries : List (κ × β)) : SortedMap κ β :=
  entries.foldl (fun m entry => m.insert entry.1 entry.2) empty

end SortedMap

end WeightedKripke
