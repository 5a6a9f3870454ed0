import Mathlib.Algebra.Order.BigOperators.Group.List
import WeightedKripke.Proofs.Quantity.Expression

/-!
# Adding up a list

A list can be added up in any order, from the left or with any brackets.  Every
intermediate sum is then a multiple of the least power of ten that occurs and not
larger than the total.  If the total fits at the least exponent, an intermediate sum
fits wherever it is aligned; and from an exponent far enough below the largest one,
its zeros cannot take it out of range.
-/

namespace WeightedKripke

namespace Quantity

/-- The exponents of the nonzero quantities of a list. -/
def exponents (items : List Quantity) : List Int :=
  (items.filter fun q => !q.isZero).map exponent

/-- The total of a list as a coefficient at an exponent not above those that occur. -/
def totalAt (items : List Quantity) (exponent : Int) : Nat :=
  (items.map fun q => q.scaledTo exponent).sum

def NoneBelow (exponent : Int) (items : List Quantity) : Prop :=
  ∀ q, q ∈ items → q.coefficient ≠ 0 → exponent ≤ q.exponent

/--
An expression that adds up a list in its order, with brackets of some kind.

The additions can be operators, assignments and checked ones.
-/
inductive Brackets : Expression → List Quantity → Prop where
  | quantity (q : Quantity) : Brackets (.source (.given q)) [q]
  | add (form : Form) {left right : Expression} {front back : List Quantity} :
      Brackets left front → Brackets right back →
        Brackets (.operation form .add left right) (front ++ back)

/-- A list is added up in its order to a quantity: by the total, or with brackets. -/
inductive AddsUpTo (items : List Quantity) (q : Quantity) : Prop where
  | total : total items = .ok q → AddsUpTo items q
  | brackets {e : Expression} : Brackets e items → e.eval = .ok q → AddsUpTo items q

variable {a b p q : Quantity} {items order : List Quantity} {e : Expression} {m : Int}
  {i j : Nat}

theorem mem_exponents_iff {exponent : Int} :
    exponent ∈ exponents items ↔
      ∃ q, q ∈ items ∧ q.coefficient ≠ 0 ∧ q.exponent = exponent := by
  simp [exponents, isZero, and_assoc]

theorem exists_least_exponent (h : ∃ q, q ∈ items ∧ q.coefficient ≠ 0) :
    ∃ m, m ∈ exponents items ∧
      ∀ exponent, exponent ∈ exponents items → m ≤ exponent := by
  obtain ⟨q, hmem, hq⟩ := h
  have hne : exponents items ≠ [] :=
    List.ne_nil_of_mem (mem_exponents_iff.2 ⟨q, hmem, hq, rfl⟩)
  obtain ⟨m, hm⟩ := Option.isSome_iff_exists.1 (List.isSome_min?_of_ne_nil hne)
  exact ⟨m, List.min?_eq_some_iff.1 hm⟩

@[simp] theorem totalAt_nil (exponent : Int) : totalAt [] exponent = 0 := rfl

@[simp] theorem totalAt_cons (q : Quantity) (items : List Quantity) (exponent : Int) :
    totalAt (q :: items) exponent = q.scaledTo exponent + totalAt items exponent :=
  rfl

@[simp] theorem totalAt_append (front back : List Quantity) (exponent : Int) :
    totalAt (front ++ back) exponent = totalAt front exponent + totalAt back exponent := by
  simp [totalAt]

theorem totalAt_perm (h : order.Perm items) (exponent : Int) :
    totalAt order exponent = totalAt items exponent :=
  (h.map _).sum_eq

theorem totalAt_ne_zero (h : ∃ q, q ∈ items ∧ q.coefficient ≠ 0) (exponent : Int) :
    totalAt items exponent ≠ 0 := by
  obtain ⟨q, hmem, hq⟩ := h
  have hle : q.scaledTo exponent ≤ totalAt items exponent :=
    List.le_sum_of_mem (List.mem_map_of_mem hmem)
  have hscaled : q.scaledTo exponent ≠ 0 := scaledTo_ne_zero hq
  omega

/-! ## One addition -/

theorem value_eq_exact_scaledTo (h : q.coefficient ≠ 0 → m ≤ q.exponent) :
    q.value = Decimal.exact (q.scaledTo m) m := by
  by_cases hq : q.coefficient = 0
  · rw [value_of_coefficient_eq_zero hq, scaledTo, hq, Nat.zero_mul, Decimal.exact_zero]
  · exact (exact_scaledTo (h hq)).symm

/--
Multiples of one power of ten are added where their sum fits at that power.

Twenty digits cannot be all zeros, so the exponent rises by at most 19.
-/
theorem exists_add_of_fits (ha : a.value = Decimal.exact i m) (hb : b.value = Decimal.exact j m)
    (hfits : i + j < 2 ^ 64) (hm : m ≤ 2 ^ 63 - 1 - 19) :
    ∃ s, add a b = .ok s ∧ s.value = Decimal.exact (i + j) m := by
  by_cases hzero : b.coefficient = 0
  · rw [value_of_coefficient_eq_zero hzero] at hb
    rw [eq_zero_of_coefficient hzero, add_zero, Decimal.exact_eq_zero_iff.1 hb.symm]
    exact ⟨a, rfl, ha⟩
  · by_cases hzero' : a.coefficient = 0
    · rw [value_of_coefficient_eq_zero hzero'] at ha
      rw [eq_zero_of_coefficient hzero', zero_add, Decimal.exact_eq_zero_iff.1 ha.symm,
        Nat.zero_add]
      exact ⟨b, rfl, hb⟩
    · have hsum : Decimal.exact (alignedSum a b) (commonExponent a b) =
          Decimal.exact (i + j) m := by
        rw [exact_alignedSum, ha, hb, Decimal.exact_add]
      have hcommon : m ≤ commonExponent a b :=
        Int.le_min.2 ⟨le_exponent_of_value hzero' ha, le_exponent_of_value hzero hb⟩
      have hle : alignedSum a b ≤ i + j := Decimal.le_of_exact_eq hcommon hsum
      have hrange : commonExponent a b + Decimal.trailingZeros (alignedSum a b) < m + 20 := by
        have hstrip : Decimal.stripZeros (alignedSum a b) ≠ 0 := by
          intro hstrip
          exact Decimal.stripZeros_mod_ne_zero (alignedSum_ne_zero hzero') (by rw [hstrip])
        apply Decimal.exponent_lt_of_exact_eq hstrip (Nat.lt_trans hfits (by decide))
        · omega
        · rw [Decimal.exact_stripZeros, hsum]
      obtain ⟨s, hs, hvalue⟩ :=
        (classified_add hzero' hzero).normal_iff.2 ⟨by omega, by omega⟩
      exact ⟨s, hs, hvalue.trans hsum⟩

/-! ## A whole list -/

theorem exists_foldlM_add_of_fits (hitems : NoneBelow m items)
    (ha : a.value = Decimal.exact i m) (hfits : i + totalAt items m < 2 ^ 64)
    (hm : m ≤ 2 ^ 63 - 1 - 19) :
    ∃ s, items.foldlM add a = .ok s ∧
      s.value = Decimal.exact (i + totalAt items m) m := by
  induction items generalizing a i with
  | nil => exact ⟨a, rfl, ha⟩
  | cons item rest ih =>
      rw [totalAt_cons] at hfits ⊢
      have hitem := value_eq_exact_scaledTo (hitems item List.mem_cons_self)
      obtain ⟨next, hnext, hvalue⟩ := exists_add_of_fits ha hitem (by omega) hm
      have hrest : NoneBelow m rest := fun q hq => hitems q (List.mem_cons_of_mem item hq)
      obtain ⟨s, hs, hs'⟩ := ih hrest hvalue (by omega)
      rw [List.foldlM_cons, hnext, ← Nat.add_assoc]
      exact ⟨s, hs, hs'⟩

theorem exists_total_of_fits (hitems : NoneBelow m items) (hfits : totalAt items m < 2 ^ 64)
    (hm : m ≤ 2 ^ 63 - 1 - 19) :
    ∃ s, total items = .ok s ∧ s.value = Decimal.exact (totalAt items m) m := by
  have hzero : zero.value = Decimal.exact 0 m := by
    rw [value_zero, Decimal.exact_zero]
  obtain ⟨s, hs, hvalue⟩ :=
    exists_foldlM_add_of_fits hitems hzero (by rwa [Nat.zero_add]) hm
  rw [Nat.zero_add] at hvalue
  exact ⟨s, total_eq_ok_iff.2 hs, hvalue⟩

theorem Brackets.exists_eval (h : Brackets e items) (hitems : NoneBelow m items)
    (hfits : totalAt items m < 2 ^ 64) (hm : m ≤ 2 ^ 63 - 1 - 19) :
    ∃ s, e.eval = .ok s ∧ s.value = Decimal.exact (totalAt items m) m := by
  induction h with
  | quantity q =>
      rw [Expression.eval, totalAt_cons, totalAt_nil, Nat.add_zero]
      exact ⟨q, rfl, value_eq_exact_scaledTo (hitems q List.mem_cons_self)⟩
  | @add form left right front back _ _ ihleft ihright =>
      rw [totalAt_append] at hfits ⊢
      have hfront : NoneBelow m front := fun q hq => hitems q (List.mem_append_left back hq)
      have hback : NoneBelow m back := fun q hq => hitems q (List.mem_append_right front hq)
      obtain ⟨x, hx, hxvalue⟩ := ihleft hfront (by omega)
      obtain ⟨y, hy, hyvalue⟩ := ihright hback (by omega)
      obtain ⟨s, hs, hvalue⟩ := exists_add_of_fits hxvalue hyvalue hfits hm
      exact ⟨s, Expression.eval_operation_eq_ok_iff.2 ⟨x, y, hx, hy, hs⟩, hvalue⟩

theorem Brackets.value_eq (h : Brackets e items) : e.value = (items.map value).sum := by
  induction h with
  | quantity q => simp [Expression.value, Source.value]
  | add _ _ _ ihleft ihright =>
      rw [Expression.value, ihleft, ihright, List.map_append, List.sum_append]
      rfl

theorem AddsUpTo.value_eq (h : AddsUpTo items q) : q.value = (items.map value).sum := by
  cases h with
  | total htotal => exact value_of_total htotal
  | brackets hbrackets heval => rw [Expression.value_of_eval heval, hbrackets.value_eq]

/-! ## Every order -/

theorem exact_totalAt (h : NoneBelow m items) :
    Decimal.exact (totalAt items m) m = (items.map value).sum := by
  induction items with
  | nil => exact Decimal.exact_zero m
  | cons item rest ih =>
      have hrest : NoneBelow m rest := fun q hq => h q (List.mem_cons_of_mem item hq)
      rw [totalAt_cons, Decimal.exact_add, ih hrest, List.map_cons, List.sum_cons,
        ← value_eq_exact_scaledTo (h item List.mem_cons_self)]

/-- If the total fits, every order of the list is added up to the quantity of its value. -/
theorem total_eq_of_perm (hperm : order.Perm items) (hitems : NoneBelow m items)
    (hfits : totalAt items m < 2 ^ 64) (hm : m ≤ 2 ^ 63 - 1 - 19)
    (hq : q.value = Decimal.exact (totalAt items m) m) :
    total order = .ok q ∧ ∀ e, Brackets e order → e.eval = .ok q := by
  rw [← totalAt_perm hperm m] at hfits hq
  have horder : NoneBelow m order := fun q hmem => hitems q (hperm.mem_iff.1 hmem)
  constructor
  · obtain ⟨s, hs, hvalue⟩ := exists_total_of_fits horder hfits hm
    rw [hs, value_injective (hvalue.trans hq.symm)]
  · intro e h
    obtain ⟨s, hs, hvalue⟩ := h.exists_eval horder hfits hm
    rw [hs, value_injective (hvalue.trans hq.symm)]

theorem AddsUpTo.eq_of_perm {order' : List Quantity} (hp : AddsUpTo order p)
    (hq : AddsUpTo order' q) (hperm : order.Perm order') : p = q := by
  apply value_injective
  rw [hp.value_eq, hq.value_eq, (hperm.map value).sum_eq]

/--
A list with a nonzero quantity has one total in every order and with all brackets, if
its total fits at the least exponent that occurs and that exponent is not among the
last 19.

Without this condition, totals that are returned are still equal.
-/
theorem total_independent_of_order (items : List Quantity) :
    ((∃ q, q ∈ items ∧ q.coefficient ≠ 0) → ∃ m,
      (m ∈ exponents items ∧ ∀ exponent, exponent ∈ exponents items → m ≤ exponent) ∧
        Decimal.exact (totalAt items m) m = (items.map value).sum ∧
        (totalAt items m < 2 ^ 64 → m ≤ 2 ^ 63 - 1 - 19 → ∃ q : Quantity,
          q.coefficient = Decimal.stripZeros (totalAt items m) ∧
            q.exponent = m + Decimal.trailingZeros (totalAt items m) ∧
            ∀ order, order.Perm items →
              total order = .ok q ∧ ∀ e, Brackets e order → e.eval = .ok q)) ∧
      (∀ order order' p q, order.Perm items → order'.Perm items →
        AddsUpTo order p → AddsUpTo order' q → p = q) := by
  constructor
  · intro hne
    obtain ⟨m, hmem, hleast⟩ := exists_least_exponent hne
    have hitems : NoneBelow m items := fun q hq hnonzero =>
      hleast q.exponent (mem_exponents_iff.2 ⟨q, hq, hnonzero, rfl⟩)
    refine ⟨m, ⟨hmem, hleast⟩, exact_totalAt hitems, ?_⟩
    intro hfits hm
    obtain ⟨q, -, hvalue⟩ := exists_total_of_fits hitems hfits hm
    obtain ⟨hcoefficient, hexponent⟩ := normal_of_value (totalAt_ne_zero hne m) hvalue
    exact ⟨q, hcoefficient, hexponent, fun order hperm =>
      total_eq_of_perm hperm hitems hfits hm hvalue⟩
  · intro order order' p q hperm hperm' hp hq
    exact hp.eq_of_perm hq (hperm.trans hperm'.symm)

/-- `10 ^ 19 - 1` at the largest exponent from which 19 zeros stay in range. -/
def highNines : Quantity :=
  ⟨10 ^ 19 - 1, 2 ^ 63 - 20, by decide, by decide, by decide⟩

def highOne : Quantity :=
  ⟨1, 2 ^ 63 - 20, one.coefficient_lt, by decide, by decide⟩

/-- `wideTens + (five + five)`, with an assignment and an operator. -/
def bracketed : Expression :=
  .operation .assignment .add (.source (.given wideTens))
    (.operation .operator .add (.source (.given five)) (.source (.given five)))

theorem brackets_bracketed : Brackets bracketed [wideTens, five, five] :=
  .add .assignment (.quantity wideTens) (.add .operator (.quantity five) (.quantity five))

/--
A total can gain 19 zeros and be `1` at the largest exponent, in every order.  Where the
total does not fit at the least exponent, two ways of adding that succeed agree.
-/
theorem total_at_limits :
    (∃ q, q.exponent = 2 ^ 63 - 1 ∧ total [highNines, highOne] = .ok q ∧
      total [highOne, highNines] = .ok q ∧
      (Expression.operation .operator .add (.source (.given highOne))
        (.source (.given highNines))).eval = .ok q) ∧
      ∃ p q, total [five, five, wideTens] = .ok p ∧ bracketed.eval = .ok q ∧ p = q := by
  obtain ⟨htotal, -⟩ := total_independent_of_order [highNines, highOne]
  obtain ⟨-, hagree⟩ := total_independent_of_order [five, five, wideTens]
  constructor
  · obtain ⟨m, ⟨hmem, -⟩, -, hevery⟩ := htotal ⟨highOne, by decide, by decide⟩
    have hexponents : exponents [highNines, highOne] = [2 ^ 63 - 20, 2 ^ 63 - 20] := by decide
    have hm : m = 2 ^ 63 - 20 := by
      rw [hexponents] at hmem
      simpa using hmem
    subst hm
    obtain ⟨q, -, hexponent, hevery⟩ := hevery (by decide) (by decide)
    obtain ⟨hswapped, hbracketed⟩ := hevery [highOne, highNines] (.swap _ _ _)
    exact ⟨q, hexponent.trans (by decide), (hevery _ (.refl _)).1, hswapped,
      hbracketed _ (.add .operator (.quantity highOne) (.quantity highNines))⟩
  · obtain ⟨p, hp⟩ : ∃ p, total [five, five, wideTens] = .ok p := ⟨_, rfl⟩
    obtain ⟨q, hq⟩ : ∃ q, bracketed.eval = .ok q := ⟨_, rfl⟩
    have hperm : [wideTens, five, five].Perm [five, five, wideTens] := by decide
    exact ⟨p, q, hp, hq, hagree _ _ p q (.refl _) hperm (.total hp)
      (.brackets brackets_bracketed hq)⟩

end Quantity

end WeightedKripke
