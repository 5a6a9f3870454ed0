import Mathlib.Data.Nat.Cast.Order.Field
import Mathlib.Tactic.FieldSimp
import WeightedKripke.Proofs.Decimal.Nearest

/-!
# The shortest digits read back

The search for the shortest digits tests decimals with one digit, with two, and so on.  A
decimal that it accepts lies within half a gap of the double.  At the seventeenth digit the
decimals are closer to each other than the doubles are, so the nearest one is accepted and
the search never reaches its last resort.
-/

namespace WeightedKripke

namespace Decimal

open Binary64

theorem zpow_eq_div {b : Rat} (hb : b ≠ 0) (exponent : Int) :
    b ^ exponent = b ^ exponent.toNat / b ^ (-exponent).toNat := by
  have hexponent : exponent = (exponent.toNat : Int) - ((-exponent).toNat : Int) := by omega
  conv_lhs => rw [hexponent]
  rw [zpow_sub₀ hb, zpow_natCast, zpow_natCast]

/-! ## Fractions and decimals -/

section Fractions

variable {d digits : Nat} {power : Int}

theorem div_le_exact_iff (hd : 0 < d) (n : Nat) :
    (n : Rat) / d ≤ exact digits power ↔
      n * 10 ^ (-power).toNat ≤ digits * 10 ^ power.toNat * d := by
  have hpos : (0 : Rat) < d := by exact_mod_cast hd
  unfold exact
  rw [zpow_eq_div (by norm_num), ← mul_div_assoc, div_le_div_iff₀ hpos (by positivity)]
  exact_mod_cast Iff.rfl

theorem exact_le_div_iff (hd : 0 < d) (n : Nat) :
    exact digits power ≤ (n : Rat) / d ↔
      digits * 10 ^ power.toNat * d ≤ n * 10 ^ (-power).toNat := by
  have hpos : (0 : Rat) < d := by exact_mod_cast hd
  unfold exact
  rw [zpow_eq_div (by norm_num), ← mul_div_assoc, div_le_div_iff₀ (by positivity) hpos]
  exact_mod_cast Iff.rfl

theorem div_lt_exact_iff (hd : 0 < d) (n : Nat) :
    (n : Rat) / d < exact digits power ↔
      n * 10 ^ (-power).toNat < digits * 10 ^ power.toNat * d := by
  rw [← not_le, exact_le_div_iff hd, Nat.not_le]

theorem exact_lt_div_iff (hd : 0 < d) (n : Nat) :
    exact digits power < (n : Rat) / d ↔
      digits * 10 ^ power.toNat * d < n * 10 ^ (-power).toNat := by
  rw [← not_le, div_le_exact_iff hd, Nat.not_le]

/-- What an integral quotient leaves of the exact one. -/
theorem div_sub_cast_div (n : Nat) {d : Nat} (hd : 0 < d) :
    (n : Rat) / d - (n / d : Nat) = (n % d : Nat) / (d : Rat) := by
  have hpos : (0 : Rat) < d := by exact_mod_cast hd
  have hdecomp : (n : Rat) = d * (n / d : Nat) + (n % d : Nat) := by
    exact_mod_cast (Nat.div_add_mod n d).symm
  generalize n / d = q at *
  generalize n % d = r at *
  rw [hdecomp]
  field_simp
  ring

/-- The quotient, rounded up from the middle on, is within a half of the exact one. -/
theorem near_quotient (n : Nat) {d : Nat} (hd : 0 < d) :
    |((if d ≤ 2 * (n % d) then n / d + 1 else n / d : Nat) : Rat) - (n : Rat) / d| ≤ 1 / 2 := by
  have hpos : (0 : Rat) < d := by exact_mod_cast hd
  have hrest := div_sub_cast_div n hd
  have hnonneg : (0 : Rat) ≤ (n % d : Nat) / (d : Rat) := by positivity
  split
  · rename_i hup
    have hlt : ((n % d : Nat) : Rat) / d < 1 := by
      rw [div_lt_one hpos]
      exact_mod_cast Nat.mod_lt n hd
    have hhalf : (1 : Rat) / 2 ≤ (n % d : Nat) / (d : Rat) := by
      have hcast : (d : Rat) ≤ 2 * (n % d : Nat) := by exact_mod_cast hup
      rw [le_div_iff₀ hpos]
      linarith
    push_cast
    exact abs_le.2 ⟨by linarith, by linarith⟩
  · rename_i hdown
    have hhalf : ((n % d : Nat) : Rat) / d ≤ 1 / 2 := by
      have hcast : (2 : Rat) * (n % d : Nat) ≤ d := by exact_mod_cast (Nat.not_le.1 hdown).le
      rw [div_le_iff₀ hpos]
      linarith
    exact abs_le.2 ⟨by linarith, by linarith⟩

end Fractions

namespace RoundingInterval

variable {i : RoundingInterval} {digits fuel : Nat} {power : Int}

def center (i : RoundingInterval) : Rat :=
  (i.value : Rat) / i.denominator

theorem contains_iff (hd : 0 < i.denominator) :
    i.contains digits power = true ↔
      ((i.lower : Rat) / i.denominator ≤ exact digits power ∧
        exact digits power ≤ (i.upper : Rat) / i.denominator) ∧
      (i.closed = true ∨ (i.lower : Rat) / i.denominator < exact digits power ∧
        exact digits power < (i.upper : Rat) / i.denominator) := by
  rw [div_le_exact_iff hd, exact_le_div_iff hd, div_lt_exact_iff hd, exact_lt_div_iff hd]
  unfold contains
  simp only
  split
  · rename_i hclosed
    simp [hclosed]
  · rename_i hopen
    simp only [Bool.and_eq_true, decide_eq_true_eq]
    exact ⟨fun h => ⟨⟨h.1.le, h.2.le⟩, Or.inr h⟩, fun h => h.2.resolve_left hopen⟩

/-! ## The leading power -/

/-- The center lies between the powers of ten that its leading digit stands for. -/
theorem leadingPower_spec (hd : 0 < i.denominator) (hv : i.value ≠ 0) :
    (10 : Rat) ^ i.leadingPower ≤ i.center ∧ i.center < (10 : Rat) ^ (i.leadingPower + 1) := by
  have hpos : (0 : Rat) < i.denominator := by exact_mod_cast hd
  have hvlower := zpow_le_exact hv 0
  have hvupper := exact_lt_zpow i.value 0
  have hdlower := zpow_le_exact hd.ne' 0
  have hdupper := exact_lt_zpow i.denominator 0
  rw [exact_zero_exponent, Int.zero_add] at hvlower hvupper hdlower hdupper
  generalize hestimate : (digitCount i.value : Int) - digitCount i.denominator = estimate
  have htest : i.denominator * 10 ^ estimate.toNat ≤ i.value * 10 ^ (-estimate).toNat ↔
      (10 : Rat) ^ estimate ≤ i.center := by
    have hunit : exact 1 estimate = (10 : Rat) ^ estimate := by simp [exact]
    rw [center, ← hunit, exact_le_div_iff hd, Nat.one_mul, Nat.mul_comm]
  have hlower : (10 : Rat) ^ (estimate - 1) ≤ i.center := by
    rw [center, le_div_iff₀ hpos]
    calc
      (10 : Rat) ^ (estimate - 1) * i.denominator
          ≤ (10 : Rat) ^ (estimate - 1) * (10 : Rat) ^ (digitCount i.denominator : Int) :=
        mul_le_mul_of_nonneg_left hdupper.le (ten_zpow_pos _).le
      _ = (10 : Rat) ^ ((digitCount i.value : Int) - 1) := by
        rw [← zpow_add₀ (by norm_num)]
        congr 1
        omega
      _ ≤ i.value := hvlower
  have hupper : i.center < (10 : Rat) ^ (estimate + 1) := by
    rw [center, div_lt_iff₀ hpos]
    calc
      (i.value : Rat) < (10 : Rat) ^ (digitCount i.value : Int) := hvupper
      _ = (10 : Rat) ^ (estimate + 1) * (10 : Rat) ^ ((digitCount i.denominator : Int) - 1) := by
        rw [← zpow_add₀ (by norm_num)]
        congr 1
        omega
      _ ≤ (10 : Rat) ^ (estimate + 1) * i.denominator :=
        mul_le_mul_of_nonneg_left hdlower (ten_zpow_pos _).le
  unfold leadingPower
  simp only [hestimate, htest]
  split
  · rename_i hreached
    exact ⟨hreached, hupper⟩
  · rename_i hmissed
    rw [Int.sub_add_cancel]
    exact ⟨hlower, not_le.1 hmissed⟩

/-! ## One grid -/

/-- The quotient that is rounded is the center in units of the grid. -/
theorem div_eq_center_div (i : RoundingInterval) (power : Int) :
    ((i.value * 10 ^ (-power).toNat : Nat) : Rat) / (i.denominator * 10 ^ power.toNat : Nat) =
      i.center / (10 : Rat) ^ power := by
  rw [center, zpow_eq_div (by norm_num), Nat.cast_mul, Nat.cast_mul, Nat.cast_pow, Nat.cast_pow,
    div_div_div_eq]
  rfl

/-- What is accepted is in the interval, and it is the neighbour of the center or below it. -/
theorem of_onGrid? (h : i.onGrid? power = some digits) :
    i.contains digits power = true ∧ (digits : Rat) ≤ i.center / (10 : Rat) ^ power + 1 := by
  have hbelow : ((i.value * 10 ^ (-power).toNat / (i.denominator * 10 ^ power.toNat) : Nat) : Rat)
      ≤ i.center / (10 : Rat) ^ power := by
    rw [← div_eq_center_div]
    exact Nat.cast_div_le
  unfold onGrid? at h
  simp only at h
  generalize i.value * 10 ^ (-power).toNat / (i.denominator * 10 ^ power.toNat) = below at h hbelow
  generalize hnearest : (if i.denominator * 10 ^ power.toNat ≤
    2 * (i.value * 10 ^ (-power).toNat % (i.denominator * 10 ^ power.toNat)) then below + 1
      else below) = nearest at h
  generalize hother : (if nearest = below then below + 1 else below) = other at h
  have hle : nearest ≤ below + 1 ∧ other ≤ below + 1 := by
    rw [← hnearest, ← hother]
    constructor <;> split <;> omega
  have hcontained : i.contains digits power = true ∧ digits ≤ below + 1 := by
    split at h
    · rename_i hcontains
      cases h
      exact ⟨hcontains, hle.1⟩
    · split at h
      · rename_i hcontains
        cases h
        exact ⟨hcontains, hle.2⟩
      · cases h
  have hcast : (digits : Rat) ≤ below + 1 := by exact_mod_cast hcontained.2
  exact ⟨hcontained.1, by linarith⟩

theorem exists_onGrid? (hd : 0 < i.denominator) (power : Int) :
    ∃ nearest : Nat, |(nearest : Rat) - i.center / (10 : Rat) ^ power| ≤ 1 / 2 ∧
      (i.contains nearest power = true → i.onGrid? power = some nearest) := by
  have hdivisor : 0 < i.denominator * 10 ^ power.toNat :=
    Nat.mul_pos hd (Nat.pow_pos (by decide))
  refine ⟨_, ?_, fun h => if_pos h⟩
  rw [← div_eq_center_div]
  exact near_quotient _ hdivisor

/-! ## The search -/

theorem searchFuel_spec {steps : Nat} (hsteps : steps < fuel)
    (h : i.onGrid? (power - steps) ≠ none) :
    ∃ (taken : Nat) (digits : Nat), taken ≤ steps ∧
      i.searchFuel fuel power = (digits, power - taken) ∧
      i.onGrid? (power - taken) = some digits := by
  induction fuel generalizing steps power with
  | zero => omega
  | succ fuel ih =>
      unfold searchFuel
      cases hgrid : i.onGrid? power with
      | some digits => exact ⟨0, digits, Nat.zero_le _, by simp, by simpa using hgrid⟩
      | none =>
          cases steps with
          | zero => simp [hgrid] at h
          | succ steps =>
              have hnext : power - (steps + 1 : Nat) = power - 1 - (steps : Nat) := by omega
              rw [hnext] at h
              obtain ⟨taken, digits, htaken, hsearch, hfound⟩ := ih (by omega) h
              have hpower : power - 1 - (taken : Nat) = power - (taken + 1 : Nat) := by omega
              rw [hpower] at hsearch hfound
              exact ⟨taken + 1, digits, by omega, hsearch, hfound⟩

/-! ## The interval of a double -/

variable {m : Nat} {e : Int}

theorem denominator_pos (m : Nat) (e : Int) : 0 < (ofBinary m e).denominator :=
  Nat.mul_pos (by decide) (Nat.pow_pos (by decide))

theorem value_ne_zero (hne : m ≠ 0) : (ofBinary m e).value ≠ 0 :=
  Nat.mul_ne_zero (Nat.mul_ne_zero (by decide) hne) (Nat.pow_pos (by decide)).ne'

/-- The interval counts quarters of the last bit. -/
theorem quarters_div (n m : Nat) (e : Int) :
    ((n * 2 ^ e.toNat : Nat) : Rat) / (ofBinary m e).denominator = n / 4 * (2 : Rat) ^ e := by
  have hdenominator : (ofBinary m e).denominator = 4 * 2 ^ (-e).toNat := rfl
  rw [hdenominator, zpow_eq_div (by norm_num)]
  push_cast
  rw [div_mul_div_comm]

theorem center_ofBinary (m : Nat) (e : Int) : (ofBinary m e).center = binary m e := by
  have hvalue : (ofBinary m e).value = 4 * m * 2 ^ e.toNat := rfl
  rw [center, hvalue, quarters_div, binary]
  push_cast
  ring

theorem lower_ofBinary (hne : m ≠ 0) (e : Int) :
    ((ofBinary m e).lower : Rat) / (ofBinary m e).denominator =
      binary m e - quartersBelow m e / 4 * (2 : Rat) ^ e := by
  have hlower : (ofBinary m e).lower = (4 * m - quartersBelow m e) * 2 ^ e.toNat := rfl
  have hle : quartersBelow m e ≤ 4 * m := by
    have hquarters := quartersBelow_le m e
    omega
  rw [hlower, quarters_div, binary, Nat.cast_sub hle]
  push_cast
  ring

theorem upper_ofBinary (m : Nat) (e : Int) :
    ((ofBinary m e).upper : Rat) / (ofBinary m e).denominator =
      binary m e + 1 / 2 * (2 : Rat) ^ e := by
  have hupper : (ofBinary m e).upper = (4 * m + 2) * 2 ^ e.toNat := rfl
  rw [hupper, quarters_div, binary]
  push_cast
  ring

theorem contains_ofBinary_iff (hne : m ≠ 0) :
    (ofBinary m e).contains digits power = true ↔ WithinHalfGaps (exact digits power) m e := by
  have hclosed : (ofBinary m e).closed = true ↔ m % 2 = 0 := beq_iff_eq
  rw [contains_iff (denominator_pos m e), lower_ofBinary hne, upper_ofBinary, hclosed]
  exact ⟨fun h => ⟨h.1.1, h.1.2, h.2⟩, fun h => ⟨⟨h.lower, h.upper⟩, h.ends⟩⟩

/-- Doubles have fewer bits than seventeen digits can tell apart. -/
theorem two_mul_lt_quarters (hm : Canonical m e) : 2 * m < quartersBelow m e * 10 ^ 16 := by
  have hlt := hm.significand_lt
  unfold quartersBelow hiddenBit at *
  split <;> omega

/-- A decimal within half a unit of a double lies strictly inside, if the unit is fine enough. -/
theorem withinHalfGaps_of_near {n : Nat}
    (hfine : 2 * (10 : Rat) ^ power < quartersBelow m e * (2 : Rat) ^ e)
    (hnear : |(n : Rat) - binary m e / (10 : Rat) ^ power| ≤ 1 / 2) :
    WithinHalfGaps (exact n power) m e := by
  have hunit := ten_zpow_pos power
  obtain ⟨hbelow, habove⟩ := abs_le.1 hnear
  have hlower : binary m e ≤ (n + 1 / 2) * (10 : Rat) ^ power := by
    rw [← div_le_iff₀ hunit]
    linarith
  have hupper : (n - 1 / 2) * (10 : Rat) ^ power ≤ binary m e := by
    rw [← le_div_iff₀ hunit]
    linarith
  have hquarters : quartersBelow m e * (2 : Rat) ^ e ≤ 2 * (2 : Rat) ^ e := by
    have hle : (quartersBelow m e : Rat) ≤ 2 := by exact_mod_cast quartersBelow_le m e
    exact mul_le_mul_of_nonneg_right hle (two_zpow_pos e).le
  have hexact : exact n power = n * (10 : Rat) ^ power := rfl
  have hstrictLower : binary m e - quartersBelow m e / 4 * (2 : Rat) ^ e < exact n power := by
    linarith
  have hstrictUpper : exact n power < binary m e + 1 / 2 * (2 : Rat) ^ e := by
    linarith
  exact ⟨hstrictLower.le, hstrictUpper.le, Or.inr ⟨hstrictLower, hstrictUpper⟩⟩

/-- The grid of the seventeenth digit has a point in the interval. -/
theorem exists_onGrid?_ofBinary (hm : Canonical m e) (hne : m ≠ 0) :
    (ofBinary m e).onGrid? ((ofBinary m e).leadingPower - (16 : Nat)) ≠ none := by
  obtain ⟨hleading, -⟩ := leadingPower_spec (denominator_pos m e) (value_ne_zero (e := e) hne)
  generalize (ofBinary m e).leadingPower = leading at hleading ⊢
  rw [center_ofBinary, binary] at hleading
  obtain ⟨nearest, hnear, hfound⟩ := exists_onGrid? (denominator_pos m e) (leading - (16 : Nat))
  have hfine : 2 * (10 : Rat) ^ (leading - (16 : Nat)) < quartersBelow m e * (2 : Rat) ^ e := by
    have hpos := two_zpow_pos e
    have hunit : (10 : Rat) ^ leading = (10 : Rat) ^ (leading - (16 : Nat)) * 10 ^ 16 := by
      rw [← zpow_natCast, ← zpow_add₀ (by norm_num), Int.sub_add_cancel]
    have hquarters : (2 : Rat) * m < quartersBelow m e * 10 ^ 16 := by
      exact_mod_cast two_mul_lt_quarters hm
    have hscaled := mul_lt_mul_of_pos_right hquarters hpos
    rw [hunit] at hleading
    linarith
  rw [center_ofBinary] at hnear
  rw [hfound ((contains_ofBinary_iff hne).2 (withinHalfGaps_of_near hfine hnear))]
  exact Option.some_ne_none nearest

end RoundingInterval

/-! ## The digits of a double -/

variable {m digits : Nat} {e power : Int}

/-- What is known of the shortest digits of a double. -/
structure ShortestDigits (m : Nat) (e : Int) (digits : Nat) (power : Int) : Prop where
  readsAs : ReadsAs (exact digits power) m e
  last_digit : digits % 10 ≠ 0
  /-- There are at most seventeen digits. -/
  digits_lt : digits < 10 ^ 17

open RoundingInterval

/-- A grid up to the seventeenth digit has no more points below the center. -/
theorem le_of_onGrid?_ofBinary {found taken : Nat} (hne : m ≠ 0) (htaken : taken ≤ 16)
    (h : (ofBinary m e).onGrid? ((ofBinary m e).leadingPower - taken) = some found) :
    found ≤ 10 ^ 17 := by
  obtain ⟨-, hupper⟩ := leadingPower_spec (denominator_pos m e) (value_ne_zero (e := e) hne)
  have hle := (of_onGrid? h).2
  generalize (ofBinary m e).leadingPower = leading at hupper hle
  have hunits : (ofBinary m e).center / (10 : Rat) ^ (leading - taken) < 10 ^ 17 := by
    rw [div_lt_iff₀ (ten_zpow_pos _), ← zpow_natCast, ← zpow_add₀ (by norm_num)]
    refine hupper.trans_le (zpow_le_zpow_right₀ (by norm_num) ?_)
    omega
  have hlt : (found : Rat) < 10 ^ 17 + 1 := by linarith
  exact Nat.le_of_lt_succ (by exact_mod_cast hlt)

theorem shortestDigits (hm : Canonical m e) (hne : m ≠ 0)
    (h : shortest m e = (digits, power)) : ShortestDigits m e digits power := by
  obtain ⟨taken, found, htaken, hsearch, hgrid⟩ :=
    searchFuel_spec (by decide : 16 < sufficientDigits) (exists_onGrid?_ofBinary hm hne)
  have hreads := ((contains_ofBinary_iff hne).1 (of_onGrid? hgrid).1).readsAs hm
  have hfound : found ≠ 0 := by
    rintro rfl
    have hhalf := hreads.half_le hne
    have hpos := binary_pos hne e
    rw [exact_zero] at hhalf
    linarith
  have hlast := stripZeros_mod_ne_zero hfound
  have hle := Nat.le_trans (stripZeros_le found) (le_of_onGrid?_ofBinary hne htaken hgrid)
  unfold shortest at h
  simp only [hsearch] at h
  cases h
  exact {
    readsAs := by
      rw [exact_stripZeros]
      exact hreads
    last_digit := hlast
    digits_lt := by omega }

end Decimal

end WeightedKripke
