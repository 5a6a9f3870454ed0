import WeightedKripke.Proofs.Quantity.Value

/-!
# Stripping zeros one by one

A nonzero coefficient is divided by ten as long as its last digit is zero, and its
exponent grows by one with every turn.  The coefficient gets smaller, so this loop ends:
at a coefficient with a nonzero last digit, or where the exponent cannot grow any more.
Normalising returns the pair that the loop ends at, and where the loop ends without one it
fails with the pair that the loop started from.
-/

namespace WeightedKripke

namespace Decimal

/-- `10 ^ zeros` is the largest power of ten that divides `n`. -/
structure EndsInZeros (n zeros : Nat) : Prop where
  divides : 10 ^ zeros ∣ n
  largest : ¬ 10 ^ (zeros + 1) ∣ n

theorem endsInZeros_of_eq {m n zeros : Nat} (hm : m % 10 ≠ 0) (hn : n = m * 10 ^ zeros) :
    EndsInZeros n zeros where
  divides := ⟨m, by rw [hn, Nat.mul_comm]⟩
  largest := by
    rintro ⟨k, hk⟩
    have hcancel : m = 10 * k := by
      apply Nat.eq_of_mul_eq_mul_right (Nat.pow_pos (by decide) : 0 < 10 ^ zeros)
      rw [← hn, hk, Nat.pow_succ, Nat.mul_assoc, Nat.mul_comm]
    omega

theorem endsInZeros_trailingZeros {n : Nat} (h : n ≠ 0) : EndsInZeros n (trailingZeros n) :=
  endsInZeros_of_eq (stripZeros_mod_ne_zero h) (stripZeros_mul_pow n).symm

theorem EndsInZeros.le {n more zeros : Nat} (h : EndsInZeros n zeros) (hmore : 10 ^ more ∣ n) :
    more ≤ zeros := by
  by_contra hlt
  exact h.largest (Nat.dvd_trans (Nat.pow_dvd_pow 10 (Nat.not_le.1 hlt)) hmore)

theorem EndsInZeros.unique {n zeros other : Nat} (h : EndsInZeros n zeros)
    (h' : EndsInZeros n other) : zeros = other :=
  Nat.le_antisymm (h'.le h.divides) (h.le h'.divides)

theorem stripZeros_mul_pow_of_mod_ne_zero {n : Nat} (h : n % 10 ≠ 0) (zeros : Nat) :
    stripZeros (n * 10 ^ zeros) = n := by
  have hpos : 0 < 10 ^ zeros := Nat.pow_pos (by decide)
  have hne : n * 10 ^ zeros ≠ 0 := Nat.mul_ne_zero (by omega) hpos.ne'
  have hzeros := (endsInZeros_trailingZeros hne).unique (endsInZeros_of_eq h rfl)
  rw [stripZeros, hzeros, Nat.mul_div_cancel _ hpos]

end Decimal

namespace Quantity

/-! ## The loop -/

/--
From a coefficient and an exponent the loop takes some turns and ends.

It ends with the pair it has reached, or with none where a zero is left and the exponent is
the largest one.
-/
inductive Strips : Nat → Nat → Int → Option (Nat × Int) → Prop where
  | stop {n : Nat} {exponent : Int} : n % 10 ≠ 0 → Strips 0 n exponent (some (n, exponent))
  | full {n : Nat} {exponent : Int} : n % 10 = 0 → 2 ^ 63 ≤ exponent + 1 →
      Strips 0 n exponent none
  | turn {turns n : Nat} {exponent : Int} {ending : Option (Nat × Int)} : n % 10 = 0 →
      exponent + 1 < 2 ^ 63 → Strips turns (n / 10) (exponent + 1) ending →
        Strips (turns + 1) n exponent ending

variable {n m turns : Nat} {exponent reached : Int} {ending : Option (Nat × Int)}

/-- A turn makes a nonzero coefficient smaller and leaves it nonzero, so there is a last one. -/
theorem exists_strips (hn : n ≠ 0) (exponent : Int) :
    ∃ turns ending, Strips turns n exponent ending := by
  induction n using Nat.strongRecOn generalizing exponent with
  | _ n ih =>
      by_cases hdigit : n % 10 = 0
      · rcases Int.lt_or_le (exponent + 1) (2 ^ 63) with hroom | hfull
        · obtain ⟨turns, ending, hrest⟩ := ih (n / 10) (by omega) (by omega) (exponent + 1)
          exact ⟨turns + 1, ending, .turn hdigit hroom hrest⟩
        · exact ⟨0, none, .full hdigit hfull⟩
      · exact ⟨0, some (n, exponent), .stop hdigit⟩

/-- Every turn moves one zero from the coefficient into the exponent. -/
theorem Strips.moved (h : Strips turns n exponent (some (m, reached))) :
    m % 10 ≠ 0 ∧ n = m * 10 ^ turns ∧ reached = exponent + turns := by
  generalize hending : some (m, reached) = ending at h
  induction h with
  | stop hdigit =>
      cases hending
      exact ⟨hdigit, by rw [Nat.pow_zero, Nat.mul_one], by omega⟩
  | full => cases hending
  | turn hdigit _ _ ih =>
      obtain ⟨hlast, hcoefficient, hexponent⟩ := ih hending
      refine ⟨hlast, ?_, by omega⟩
      rw [Nat.pow_succ, ← Nat.mul_assoc, ← hcoefficient, Nat.div_mul_cancel]
      exact Nat.dvd_of_mod_eq_zero hdigit

/-- Where the loop ends without a pair, the zeros it still has to move do not fit the exponent. -/
theorem Strips.overflows (h : Strips turns n exponent none) :
    10 ^ (turns + 1) ∣ n ∧ 2 ^ 63 ≤ exponent + turns + 1 := by
  generalize hending : none = ending at h
  induction h with
  | stop => cases hending
  | full hdigit hfull =>
      exact ⟨by simpa using Nat.dvd_of_mod_eq_zero hdigit, by omega⟩
  | @turn turns n exponent _ hdigit _ _ ih =>
      obtain ⟨hdvd, hfull⟩ := ih hending
      refine ⟨?_, by omega⟩
      rw [Nat.pow_succ, ← Nat.div_mul_cancel (Nat.dvd_of_mod_eq_zero hdigit)]
      exact Nat.mul_dvd_mul_right hdvd 10

theorem Strips.turns_le {zeros : Nat} (h : Strips turns n exponent ending)
    (hzeros : Decimal.EndsInZeros n zeros) : turns ≤ zeros := by
  cases ending with
  | none => exact Nat.le_of_succ_le (hzeros.le h.overflows.1)
  | some pair =>
      obtain ⟨hlast, hcoefficient, -⟩ := h.moved
      exact ((Decimal.endsInZeros_of_eq hlast hcoefficient).unique hzeros).le

theorem Strips.reached_lt (h : Strips turns n exponent (some (m, reached)))
    (hexponent : exponent < 2 ^ 63) : reached < 2 ^ 63 := by
  generalize hending : some (m, reached) = ending at h
  induction h with
  | stop =>
      cases hending
      exact hexponent
  | full => cases hending
  | turn _ hroom _ ih => exact ih hroom hending

/-- The zeros of the coefficient decide how the loop ends. -/
theorem Strips.ending_eq {zeros : Nat} (h : Strips turns n exponent ending)
    (hzeros : Decimal.EndsInZeros n zeros) (hexponent : exponent < 2 ^ 63) :
    ending =
      if exponent + zeros < 2 ^ 63 then some (n / 10 ^ zeros, exponent + zeros) else none := by
  cases ending with
  | none =>
      obtain ⟨hdvd, hfull⟩ := h.overflows
      have hmore := hzeros.le hdvd
      rw [if_neg (by omega)]
  | some pair =>
      obtain ⟨m, reached⟩ := pair
      obtain ⟨hlast, hcoefficient, hreached⟩ := h.moved
      obtain rfl := (Decimal.endsInZeros_of_eq hlast hcoefficient).unique hzeros
      have hlt := h.reached_lt hexponent
      have hquotient : n / 10 ^ turns = m := by
        rw [hcoefficient]
        exact Nat.mul_div_cancel m (Nat.pow_pos (by decide))
      rw [hreached] at hlt
      rw [if_pos hlt, hquotient, hreached]

/-! ## Normalising is the loop -/

variable {q : Quantity}

/-- Normalising gives the pair that the loop ends with. -/
theorem Strips.ofParts_eq_ok_iff (h : Strips turns n exponent ending) (hn : n ≠ 0)
    (coefficient_lt : n < 2 ^ 64) (exponent_range : ExponentRange exponent) :
    ofParts n exponent coefficient_lt exponent_range = .ok q ↔
      ending = some (q.coefficient, q.exponent) := by
  rw [h.ending_eq (Decimal.endsInZeros_trailingZeros hn) exponent_range.2, ofParts, dif_neg hn]
  split
  · rw [Except.ok.injEq, Quantity.ext_iff, Option.some.injEq, Prod.mk.injEq]
    rfl
  · simp

/-- Normalising fails, with the numbers it was given, where the loop ends without a pair. -/
theorem Strips.ofParts_eq_error_iff {e : QuantityError} (h : Strips turns n exponent ending)
    (hn : n ≠ 0) (coefficient_lt : n < 2 ^ 64) (exponent_range : ExponentRange exponent) :
    ofParts n exponent coefficient_lt exponent_range = .error e ↔
      ending = none ∧ e = .exponentOverflow n exponent := by
  rw [h.ending_eq (Decimal.endsInZeros_trailingZeros hn) exponent_range.2, ofParts, dif_neg hn]
  split
  · simp
  · rw [Except.error.injEq, eq_comm]
    simp

theorem Strips.exists_quantity (h : Strips turns n exponent (some (m, reached))) (hn : n ≠ 0)
    (coefficient_lt : n < 2 ^ 64) (exponent_range : ExponentRange exponent) :
    ∃ q, ofParts n exponent coefficient_lt exponent_range = .ok q ∧ q.coefficient = m ∧
      q.exponent = reached := by
  cases hresult : ofParts n exponent coefficient_lt exponent_range with
  | error e => cases ((h.ofParts_eq_error_iff hn coefficient_lt exponent_range).1 hresult).1
  | ok q =>
      have hpair := (h.ofParts_eq_ok_iff hn coefficient_lt exponent_range).1 hresult
      rw [Option.some.injEq, Prod.mk.injEq] at hpair
      exact ⟨q, rfl, hpair.1.symm, hpair.2.symm⟩

theorem zeros_lt {zeros : Nat} (hn : n ≠ 0) (hlt : n < 2 ^ 64) (h : Decimal.EndsInZeros n zeros) :
    zeros < 20 := by
  rw [h.unique (Decimal.endsInZeros_trailingZeros hn)]
  exact Decimal.trailingZeros_lt (Nat.lt_trans hlt (by decide)) (by decide)

/-- Words with the value of a quantity are normalised to it. -/
theorem ofWords_eq_ok_of_value {c : UInt64} {e : Int64}
    (h : q.value = Decimal.exact c.toNat e.toInt) : ofWords c e = .ok q := by
  unfold ofWords ofParts
  by_cases hc : c.toNat = 0
  · rw [hc, Decimal.exact_zero] at h
    rw [dif_pos hc, eq_zero_of_coefficient (value_eq_zero_iff.1 h)]
  · obtain ⟨hcoefficient, hexponent⟩ := normal_of_value hc h
    have hrange := q.exponent_range.2
    rw [dif_neg hc, dif_pos (by omega)]
    exact congrArg Except.ok (Quantity.ext hcoefficient.symm hexponent.symm)

theorem ofWords_zero_exponent (n : UInt64) : ofWords n 0 = .ok (ofUInt64 n) := by
  apply ofWords_eq_ok_of_value
  rw [value_ofUInt64, Int64.toInt_zero, Decimal.exact_zero_exponent]

/--
All zeros of a nonzero coefficient move into the exponent if it has room for them, and the
numbers that were given are reported if it has not; the loop that moves them ends.

What is returned has the value of the given numbers and is the only quantity that numbers
of this value, among them its own, are normalised to.  Unsigned words always have room.
-/
theorem ofWords_strips_zeros (c : UInt64) (e : Int64) :
    (c ≠ 0 → ∃ zeros turns ending, Decimal.EndsInZeros c.toNat zeros ∧ zeros < 20 ∧
      Strips turns c.toNat e.toInt ending ∧ turns ≤ zeros ∧
      (∀ q, ofWords c e = .ok q ↔ ending = some (q.coefficient, q.exponent)) ∧
      ((∃ q, ofWords c e = .ok q ∧ q.coefficient = c.toNat / 10 ^ zeros ∧
        q.exponent = e.toInt + zeros) ↔ e.toInt + zeros < 2 ^ 63) ∧
      (ofWords c e = .error (.exponentOverflow c.toNat e.toInt) ↔
        2 ^ 63 ≤ e.toInt + zeros)) ∧
    (∀ q, ofWords c e = .ok q → q.value = Decimal.exact c.toNat e.toInt ∧
      (∀ (c' : UInt64) (e' : Int64), c'.toNat = q.coefficient → e'.toInt = q.exponent →
        ofWords c' e' = .ok q) ∧
      (∀ (c' : UInt64) (e' : Int64) (q' : Quantity),
        Decimal.exact c'.toNat e'.toInt = Decimal.exact c.toNat e.toInt →
          ofWords c' e' = .ok q' → q' = q)) ∧
    ofWords c 0 = .ok (ofUInt64 c) ∧
    (∀ n : UInt32, ofWords n.toUInt64 0 = .ok (ofUInt32 n)) := by
  refine ⟨?_, ?_, ofWords_zero_exponent c, fun n => ofWords_zero_exponent n.toUInt64⟩
  · intro hc
    have hn : c.toNat ≠ 0 := fun hzero => hc (UInt64.toNat_inj.1 hzero)
    have hzeros := Decimal.endsInZeros_trailingZeros hn
    obtain ⟨turns, ending, hrun⟩ := exists_strips hn e.toInt
    have hending := hrun.ending_eq hzeros (exponentRange_toInt e).2
    refine ⟨_, turns, ending, hzeros, zeros_lt hn c.toNat_lt hzeros, hrun,
      hrun.turns_le hzeros, fun q => hrun.ofParts_eq_ok_iff hn _ _, ?_, ?_⟩
    · constructor
      · rintro ⟨q, -, -, hexponent⟩
        rw [← hexponent]
        exact q.exponent_range.2
      · intro hroom
        rw [if_pos hroom] at hending
        rw [hending] at hrun
        exact hrun.exists_quantity hn c.toNat_lt (exponentRange_toInt e)
    · rw [← Int.not_lt]
      refine (hrun.ofParts_eq_error_iff hn _ _).trans ?_
      rw [hending]
      split
      · rename_i hroom
        exact iff_of_false (fun h => nomatch h.1) (not_not.2 hroom)
      · rename_i hfull
        exact iff_of_true ⟨rfl, rfl⟩ hfull
  · intro q hq
    have hvalue := value_of_ofWords hq
    refine ⟨hvalue, ?_, ?_⟩
    · intro c' e' hcoefficient hexponent
      apply ofWords_eq_ok_of_value
      rw [hcoefficient, hexponent]
      rfl
    · intro c' e' q' hsame hq'
      exact value_injective ((value_of_ofWords hq').trans (hsame.trans hvalue.symm))

/--
Three zeros just fit below the largest exponent, and one step above it they are reported
with the numbers that were given.
-/
theorem ofWords_strips_zeros_at_limits :
    (∃ q, ofWords 1000 (Int64.ofInt (2 ^ 63 - 4)) = .ok q ∧ q.coefficient = 1 ∧
      q.exponent = 2 ^ 63 - 1) ∧
      ofWords 1000 (Int64.ofInt (2 ^ 63 - 3)) =
        .error (.exponentOverflow 1000 (2 ^ 63 - 3)) := by
  have hthree : Decimal.EndsInZeros 1000 3 :=
    Decimal.endsInZeros_of_eq (by decide : 1 % 10 ≠ 0) (by decide)
  obtain ⟨hbelow, -⟩ := ofWords_strips_zeros 1000 (Int64.ofInt (2 ^ 63 - 4))
  obtain ⟨hat, -⟩ := ofWords_strips_zeros 1000 (Int64.ofInt (2 ^ 63 - 3))
  constructor
  · obtain ⟨zeros, -, -, hzeros, -, -, -, -, hroom, -⟩ := hbelow (by decide)
    obtain rfl : zeros = 3 := hzeros.unique hthree
    exact hroom.2 (by decide)
  · obtain ⟨zeros, -, -, hzeros, -, -, -, -, -, hfull⟩ := hat (by decide)
    obtain rfl : zeros = 3 := hzeros.unique hthree
    exact hfull.2 (by decide)

end Quantity

end WeightedKripke
