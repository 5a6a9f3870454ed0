import Mathlib.Algebra.Order.Group.Unbundled.Abs
import Mathlib.Tactic.FieldSimp
import WeightedKripke.Decimal.Scientific
import WeightedKripke.Proofs.Decimal.Value

/-!
# Rounding to four significant digits

A positive number lies between two powers of ten and is rounded on the grid on which
the lower one is a thousand.  Rounding to the nearest point, of two to the even one,
keeps the order, also where it carries into the next power; so a number is rounded to
one number only.
-/

namespace WeightedKripke

namespace Decimal

/-! ## The nearest integer -/

/-- `n` is nearest to `x`, and it is even if another integer is as near. -/
structure NearestEven (x : Rat) (n : Nat) : Prop where
  near : |x - n| ≤ 1 / 2
  even : |x - n| = 1 / 2 → n % 2 = 0

theorem nearestEven_natCast (n : Nat) : NearestEven n n where
  near := by
    rw [sub_self, abs_zero]
    norm_num
  even h := by
    rw [sub_self, abs_zero] at h
    norm_num at h

theorem NearestEven.le {x y : Rat} {m n : Nat} (hx : NearestEven x m) (hy : NearestEven y n)
    (h : x ≤ y) : m ≤ n := by
  by_contra hlt
  have hsucc : (n : Rat) + 1 ≤ m := by exact_mod_cast Nat.not_le.1 hlt
  have hlower := (abs_le.1 hx.near).1
  have hupper := (abs_le.1 hy.near).2
  -- Both numbers are the one midpoint between two integers that would both be even.
  have hxm : x - m = -(1 / 2) := by linarith
  have hyn : y - n = 1 / 2 := by linarith
  have hm : m = n + 1 := by
    have hcast : (m : Rat) = n + 1 := by linarith
    exact_mod_cast hcast
  have hmeven := hx.even (by rw [hxm, abs_neg, abs_of_nonneg (by norm_num)])
  have hneven := hy.even (by rw [hyn, abs_of_nonneg (by norm_num)])
  omega

/-- The rounded quotient is the integer nearest to the exact one. -/
theorem nearestEven_divHalfEven (n : Nat) {d : Nat} (hd : 0 < d) :
    NearestEven ((n : Rat) / d) (divHalfEven n d) := by
  have hpos : (0 : Rat) < d := by exact_mod_cast hd
  have hdecomp : (n : Rat) = d * (n / d : Nat) + (n % d : Nat) := by
    exact_mod_cast (Nat.div_add_mod n d).symm
  have hlt : ((n % d : Nat) : Rat) < d := by exact_mod_cast Nat.mod_lt n hd
  have hnonneg : (0 : Rat) ≤ (n % d : Nat) := Nat.cast_nonneg _
  unfold divHalfEven
  generalize n / d = q at *
  generalize n % d = r at *
  have hquotient : (n : Rat) / d - q = r / d := by
    rw [hdecomp]
    field_simp
    ring
  have hfraction : (0 : Rat) ≤ r / d := div_nonneg hnonneg hpos.le
  have hmidpoint : (r : Rat) / d = 1 / 2 → 2 * r = d := by
    intro hratio
    rw [div_eq_iff hpos.ne'] at hratio
    have hcast : (2 : Rat) * r = d := by linarith
    exact_mod_cast hcast
  split
  · rename_i hup
    have hhalf : (d : Rat) ≤ 2 * r := by
      have : d ≤ 2 * r := by omega
      exact_mod_cast this
    have hge : (1 : Rat) / 2 ≤ r / d := by
      rw [le_div_iff₀ hpos]
      linarith
    have hle : (r : Rat) / d < 1 := by rwa [div_lt_one hpos]
    have hdistance : |(n : Rat) / d - (q + 1 : Nat)| = 1 - r / d := by
      rw [Nat.cast_add, Nat.cast_one, ← sub_sub, hquotient, abs_of_nonpos (by linarith)]
      ring
    refine ⟨by rw [hdistance]; linarith, ?_⟩
    intro htie
    have hequal := hmidpoint (by linarith)
    omega
  · rename_i hdown
    have hhalf : (2 : Rat) * r ≤ d := by
      have : 2 * r ≤ d := by omega
      exact_mod_cast this
    have hle : (r : Rat) / d ≤ 1 / 2 := by
      rw [div_le_iff₀ hpos]
      linarith
    have hdistance : |(n : Rat) / d - q| = r / d := by
      rw [hquotient, abs_of_nonneg hfraction]
    refine ⟨by rw [hdistance]; exact hle, ?_⟩
    intro htie
    have hequal := hmidpoint (by rw [← hdistance]; exact htie)
    omega

/-! ## Four significant digits -/

/--
`y` is `x` rounded to four significant digits, halves to the even last digit.

The leading digit of `x` stands for `10 ^ power`, so the last of four digits stands for
`10 ^ (power - 3)`.
-/
def RoundsTo (x y : Rat) : Prop :=
  ∃ (power : Int) (n : Nat), (10 : Rat) ^ power ≤ x ∧ x < (10 : Rat) ^ (power + 1) ∧
    NearestEven (x / (10 : Rat) ^ (power - 3)) n ∧ y = exact n (power - 3)

theorem exact_ten_pow (k : Nat) (exponent : Int) :
    exact (10 ^ k) exponent = (10 : Rat) ^ (exponent + k) := by
  unfold exact
  rw [zpow_add₀ (by norm_num), zpow_natCast, mul_comm]
  push_cast
  rfl

theorem exact_div_zpow (n : Nat) (exponent : Int) :
    exact n exponent / (10 : Rat) ^ exponent = n :=
  mul_div_cancel_right₀ _ (ten_zpow_pos exponent).ne'

theorem exact_div_zpow_add (n : Nat) (exponent : Int) (shift : Nat) :
    exact n exponent / (10 : Rat) ^ (exponent + shift) = (n : Rat) / (10 ^ shift : Nat) := by
  unfold exact
  rw [zpow_add₀ (by norm_num), zpow_natCast, mul_comm ((10 : Rat) ^ exponent),
    mul_div_mul_right _ _ (ten_zpow_pos exponent).ne']
  push_cast
  rfl

/-- What is rounded stays between its powers of ten; it can reach the upper one. -/
theorem zpow_le_of_nearestEven {x : Rat} {power : Int} {n : Nat} (h : (10 : Rat) ^ power ≤ x)
    (hn : NearestEven (x / (10 : Rat) ^ (power - 3)) n) :
    (10 : Rat) ^ power ≤ exact n (power - 3) := by
  have hgrid : exact (10 ^ 3) (power - 3) = (10 : Rat) ^ power := by
    rw [exact_ten_pow]
    congr 1
    omega
  have hscaled : ((10 ^ 3 : Nat) : Rat) ≤ x / (10 : Rat) ^ (power - 3) := by
    rw [← exact_div_zpow (10 ^ 3) (power - 3), hgrid]
    exact div_le_div_of_nonneg_right h (ten_zpow_pos _).le
  rw [← hgrid, exact_le_exact_iff]
  exact (nearestEven_natCast (10 ^ 3)).le hn hscaled

theorem le_zpow_of_nearestEven {x : Rat} {power : Int} {n : Nat}
    (h : x < (10 : Rat) ^ (power + 1)) (hn : NearestEven (x / (10 : Rat) ^ (power - 3)) n) :
    exact n (power - 3) ≤ (10 : Rat) ^ (power + 1) := by
  have hgrid : exact (10 ^ 4) (power - 3) = (10 : Rat) ^ (power + 1) := by
    rw [exact_ten_pow]
    congr 1
    omega
  have hscaled : x / (10 : Rat) ^ (power - 3) ≤ ((10 ^ 4 : Nat) : Rat) := by
    rw [← exact_div_zpow (10 ^ 4) (power - 3), hgrid]
    exact div_le_div_of_nonneg_right h.le (ten_zpow_pos _).le
  rw [← hgrid, exact_le_exact_iff]
  exact hn.le (nearestEven_natCast (10 ^ 4)) hscaled

theorem RoundsTo.le {x y a b : Rat} (hx : RoundsTo x a) (hy : RoundsTo y b) (h : x ≤ y) :
    a ≤ b := by
  obtain ⟨p, m, hxlower, hxupper, hm, rfl⟩ := hx
  obtain ⟨q, n, hylower, hyupper, hn, rfl⟩ := hy
  rcases lt_trichotomy p q with hlt | heq | hgt
  · have hpow : (10 : Rat) ^ (p + 1) ≤ (10 : Rat) ^ q :=
      zpow_le_zpow_right₀ (by norm_num) (by omega)
    exact (le_zpow_of_nearestEven hxupper hm).trans
      (hpow.trans (zpow_le_of_nearestEven hylower hn))
  · subst heq
    rw [exact_le_exact_iff]
    exact hm.le hn (div_le_div_of_nonneg_right h (ten_zpow_pos _).le)
  · have hpow : (10 : Rat) ^ (q + 1) ≤ (10 : Rat) ^ p :=
      zpow_le_zpow_right₀ (by norm_num) (by omega)
    exact absurd (hpow.trans (hxlower.trans h)) (not_le.2 hyupper)

theorem RoundsTo.unique {x a b : Rat} (ha : RoundsTo x a) (hb : RoundsTo x b) : a = b :=
  le_antisymm (ha.le hb (le_refl x)) (hb.le ha (le_refl x))

end Decimal

end WeightedKripke
