import Mathlib.Data.List.Basic
import WeightedKripke.Proofs.Name.Grammar

/-!
# The order of names

Lists are in the order of their first difference, with a list before those that it
starts.  Names are in this order by the bytes of their texts: all their characters are
ASCII, so each of them is one byte.
-/

namespace WeightedKripke

/-! ## Lists by their first difference -/

/--
The first list comes before the second one.

It starts the second one, or an item of it comes before the item of the second one at
the first position where the two differ.
-/
inductive ListBefore {α : Type} (before : α → α → Prop) (first second : List α) : Prop where
  | start {next : α} {rest : List α} (eq : second = first ++ next :: rest) :
      ListBefore before first second
  | difference {common rest more : List α} {a b : α} (left : first = common ++ a :: rest)
      (right : second = common ++ b :: more) (item : before a b) :
      ListBefore before first second

section Lists

variable {α : Type} {before : α → α → Prop}

theorem listBefore_nil_iff {second : List α} : ListBefore before [] second ↔ second ≠ [] := by
  constructor
  · intro h
    cases h with
    | start eq => simp [eq]
    | difference left right item => simp at left
  · intro h
    obtain ⟨next, rest, heq⟩ := List.exists_cons_of_ne_nil h
    exact .start heq

theorem not_listBefore_nil {first : List α} : ¬ ListBefore before first [] := by
  intro h
  cases h with
  | start eq => simp at eq
  | difference left right item => simp at right

/-- The first items decide where they differ, and the rest of the lists where they do not. -/
theorem listBefore_cons_iff {a b : α} {first second : List α} :
    ListBefore before (a :: first) (b :: second) ↔
      before a b ∨ a = b ∧ ListBefore before first second := by
  constructor
  · intro h
    cases h with
    | start eq =>
        rw [List.cons_append, List.cons.injEq] at eq
        exact Or.inr ⟨eq.1.symm, .start eq.2⟩
    | @difference common _ _ _ _ left right item =>
        cases common with
        | nil =>
            rw [List.nil_append, List.cons.injEq] at left right
            rw [left.1, right.1]
            exact Or.inl item
        | cons c common =>
            rw [List.cons_append, List.cons.injEq] at left right
            exact Or.inr ⟨left.1.trans right.1.symm, .difference left.2 right.2 item⟩
  · intro h
    rcases h with item | ⟨heq, h⟩
    · exact .difference (List.nil_append _).symm (List.nil_append _).symm item
    · subst heq
      cases h with
      | start eq => exact .start (by rw [eq, List.cons_append])
      | difference left right item =>
          exact .difference (by rw [left, List.cons_append]) (by rw [right, List.cons_append])
            item

/-- What treats empty lists and first items like this order is this order. -/
theorem iff_listBefore {R : List α → List α → Prop}
    (hstart : ∀ second, R [] second ↔ second ≠ []) (hend : ∀ first, ¬ R first [])
    (hcons : ∀ a b first second,
      R (a :: first) (b :: second) ↔ before a b ∨ a = b ∧ R first second)
    {first second : List α} : R first second ↔ ListBefore before first second := by
  induction first generalizing second with
  | nil => rw [hstart, listBefore_nil_iff]
  | cons a first ih =>
      cases second with
      | nil => exact iff_of_false (hend _) not_listBefore_nil
      | cons b second => rw [hcons, listBefore_cons_iff, ih]

theorem compareLex_eq_lt_iff {order : α → α → Ordering} [Std.LawfulEqCmp order]
    {first second : List α} :
    List.compareLex order first second = .lt ↔
      ListBefore (fun a b => order a b = .lt) first second := by
  apply iff_listBefore (R := fun first second => List.compareLex order first second = .lt)
  · intro second
    cases second <;> simp [List.compareLex]
  · intro first
    cases first <;> simp [List.compareLex]
  · intro a b first second
    rw [List.compareLex_cons_cons, Ordering.then_eq_lt, Std.LawfulEqCmp.compare_eq_iff_eq]

theorem lt_iff_listBefore [LT α] {first second : List α} :
    first < second ↔ ListBefore (· < ·) first second := by
  apply iff_listBefore (R := fun first second => first < second)
  · intro second
    cases second <;> simp
  · exact List.not_lt_nil
  · intro a b first second
    exact List.cons_lt_cons_iff

/-- Items can be replaced by others that are in the same order. -/
theorem listBefore_map_iff {β : Type} {after : β → β → Prop} {f : α → β} {p : α → Prop}
    (hinj : ∀ a b, p a → p b → (f a = f b ↔ a = b))
    (hbefore : ∀ a b, p a → p b → (after (f a) (f b) ↔ before a b))
    {first second : List α} (hfirst : ∀ a, a ∈ first → p a)
    (hsecond : ∀ b, b ∈ second → p b) :
    ListBefore after (first.map f) (second.map f) ↔ ListBefore before first second := by
  induction first generalizing second with
  | nil => simp [listBefore_nil_iff]
  | cons a first ih =>
      cases second with
      | nil => simp [not_listBefore_nil]
      | cons b second =>
          obtain ⟨ha, hfirst⟩ := List.forall_mem_cons.1 hfirst
          obtain ⟨hb, hsecond⟩ := List.forall_mem_cons.1 hsecond
          rw [List.map_cons, List.map_cons, listBefore_cons_iff, listBefore_cons_iff,
            hinj a b ha hb, hbefore a b ha hb, ih hfirst hsecond]

end Lists

/-! ## Names by their bytes -/

theorem val_le_of_isNameChar {c : Char} (h : isNameChar c = true) : c.val ≤ 127 := by
  rcases Bool.or_eq_true_iff.1 h with halphanum | hunderscore
  · rcases Bool.or_eq_true_iff.1 halphanum with halpha | hdigit
    · rcases Bool.or_eq_true_iff.1 halpha with hupper | hlower
      · have hlast := (of_decide_eq_true hupper).2
        exact UInt32.le_trans hlast (by decide)
      · have hlast := of_decide_eq_true (Bool.and_eq_true_iff.1 hlower).2
        exact UInt32.le_trans hlast (by decide)
    · have hlast := of_decide_eq_true (Bool.and_eq_true_iff.1 hdigit).2
      exact UInt32.le_trans hlast (by decide)
  · rw [eq_of_beq hunderscore]
    decide

theorem toNat_toUInt8_of_le {c : Char} (h : c.val ≤ 127) :
    c.val.toUInt8.toNat = c.val.toNat := by
  have hlt : c.val.toNat ≤ 127 := UInt32.le_iff_toNat_le.1 h
  rw [UInt32.toNat_toUInt8]
  omega

namespace Name

def bytes (name : Name) : List UInt8 :=
  name.text.toUTF8.data.toList

def Before (a b : Name) : Prop :=
  ListBefore (· < ·) a.bytes b.bytes

theorem val_le_of_mem {name : Name} {c : Char} (h : c ∈ name.text.toList) : c.val ≤ 127 :=
  val_le_of_isNameChar (isNameChar_of_mem h)

/-- Each character of a name is one byte. -/
theorem bytes_eq_map (name : Name) :
    name.bytes = name.text.toList.map fun c => c.val.toUInt8 := by
  have hsingle : ∀ c, c ∈ name.text.toList →
      String.utf8EncodeChar c = [c.val.toUInt8] := by
    intro c hc
    apply String.utf8EncodeChar_eq_singleton
    exact Char.utf8Size_eq_one_iff.2 (val_le_of_mem hc)
  have hencode : name.text.toByteArray = name.text.toList.utf8Encode := by
    rw [← String.toByteArray_ofList, String.ofList_toList]
  rw [bytes, String.toUTF8_eq_toByteArray, hencode, List.utf8Encode, List.data_toByteArray,
    List.flatMap_congr hsingle, List.map_eq_flatMap]

theorem compare_eq_lt_iff {a b : Name} : compare a b = .lt ↔ a.Before b := by
  have hcompare : compare a b = .lt ↔ a.text.toList < b.text.toList :=
    compareOfLessAndEq_eq_lt
  rw [hcompare, lt_iff_listBefore, Before, bytes_eq_map, bytes_eq_map]
  symm
  apply listBefore_map_iff (p := fun c => c.val ≤ 127)
  · intro c d hc hd
    rw [← UInt8.toNat_inj, toNat_toUInt8_of_le hc, toNat_toUInt8_of_le hd, UInt32.toNat_inj,
      Char.ext_iff]
  · intro c d hc hd
    rw [UInt8.lt_iff_toNat_lt, toNat_toUInt8_of_le hc, toNat_toUInt8_of_le hd, Char.lt_def,
      UInt32.lt_iff_toNat_lt]
  · exact fun _ hc => val_le_of_mem hc
  · exact fun _ hc => val_le_of_mem hc

end Name

end WeightedKripke
