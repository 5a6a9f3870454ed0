import Mathlib.Algebra.Order.Field.Power
import Mathlib.Data.Rat.Cast.Order
import Mathlib.Tactic.Linarith
import Mathlib.Tactic.Positivity
import Mathlib.Tactic.Ring
import WeightedKripke.Decimal.Shortest

/-!
# Exact values of decimals

`exact n e` is the rational number `n × 10 ^ e`.  A decimal whose coefficient ends
in a nonzero digit is determined by its value, and the number of digits bounds the
value between two powers of ten.
-/

namespace WeightedKripke

namespace Decimal

/-- The rational number `coefficient × 10 ^ exponent`. -/
def exact (coefficient : Nat) (exponent : Int) : Rat :=
  (coefficient : Rat) * (10 : Rat) ^ exponent

theorem ten_zpow_pos (exponent : Int) : (0 : Rat) < (10 : Rat) ^ exponent := by
  positivity

theorem exact_zero_exponent (n : Nat) : exact n 0 = n := by
  simp [exact]

@[simp] theorem exact_zero (exponent : Int) : exact 0 exponent = 0 := by
  simp [exact]

theorem exact_nonneg (coefficient : Nat) (exponent : Int) : 0 ≤ exact coefficient exponent := by
  unfold exact
  positivity

theorem exact_eq_zero_iff {coefficient : Nat} {exponent : Int} :
    exact coefficient exponent = 0 ↔ coefficient = 0 := by
  have hpow := (ten_zpow_pos exponent).ne'
  simp [exact, hpow]

/-- Zeros behind the coefficient can be moved into the exponent. -/
theorem exact_mul_pow (coefficient shift : Nat) (exponent : Int) :
    exact (coefficient * 10 ^ shift) exponent = exact coefficient (exponent + shift) := by
  unfold exact
  rw [zpow_add₀ (by norm_num), zpow_natCast]
  push_cast
  ring

/-- A positive power of ten is moved into the digits, a negative one is a number of places. -/
theorem exact_places (coefficient : Nat) (exponent : Int) :
    exact (coefficient * 10 ^ exponent.toNat) (-(-exponent).toNat) =
      exact coefficient exponent := by
  have hexponent : -((-exponent).toNat : Int) + exponent.toNat = exponent := by omega
  rw [exact_mul_pow, hexponent]

theorem exact_add (a b : Nat) (exponent : Int) :
    exact (a + b) exponent = exact a exponent + exact b exponent := by
  unfold exact
  push_cast
  ring

theorem exact_mul (a b : Nat) (e f : Int) :
    exact (a * b) (e + f) = exact a e * exact b f := by
  unfold exact
  rw [zpow_add₀ (by norm_num)]
  push_cast
  ring

theorem exact_le_exact_iff {a b : Nat} {exponent : Int} :
    exact a exponent ≤ exact b exponent ↔ a ≤ b := by
  unfold exact
  rw [mul_le_mul_iff_left₀ (ten_zpow_pos exponent)]
  exact Nat.cast_le

theorem exact_lt_exact_iff {a b : Nat} {exponent : Int} :
    exact a exponent < exact b exponent ↔ a < b := by
  rw [← not_le, exact_le_exact_iff, not_le]

theorem exact_stripZeros (n : Nat) (exponent : Int) :
    exact (stripZeros n) (exponent + trailingZeros n) = exact n exponent := by
  have h := exact_mul_pow (stripZeros n) (trailingZeros n) exponent
  rw [stripZeros_mul_pow] at h
  exact h.symm

theorem exact_inj {a b : Nat} {exponent : Int} :
    exact a exponent = exact b exponent ↔ a = b := by
  rw [le_antisymm_iff, exact_le_exact_iff, exact_le_exact_iff, ← le_antisymm_iff]

/-- Of two decimals with one value, the one with the smaller exponent has more zeros. -/
theorem eq_mul_pow_of_exact_eq {a b : Nat} {e f : Int} (hle : e ≤ f)
    (h : exact a f = exact b e) : b = a * 10 ^ (f - e).toNat := by
  have hexponent : e + (f - e).toNat = f := by omega
  have hvalue : exact b e = exact (a * 10 ^ (f - e).toNat) e := by
    rw [exact_mul_pow, hexponent, h]
  exact exact_inj.1 hvalue

theorem le_of_exact_eq {a b : Nat} {e f : Int} (hle : e ≤ f) (h : exact a f = exact b e) :
    a ≤ b := by
  rw [eq_mul_pow_of_exact_eq hle h]
  exact Nat.le_mul_of_pos_right a (Nat.pow_pos (by decide))

/-- A nonzero number below `10 ^ digits` has a representation at less than `digits` more powers. -/
theorem exponent_lt_of_exact_eq {a b digits : Nat} {e f : Int} (ha : a ≠ 0)
    (hb : b < 10 ^ digits) (hle : e ≤ f) (h : exact a f = exact b e) : f < e + digits := by
  have hpow : 10 ^ (f - e).toNat ≤ b := by
    rw [eq_mul_pow_of_exact_eq hle h]
    exact Nat.le_mul_of_pos_left _ (Nat.pos_of_ne_zero ha)
  have hshift : (f - e).toNat < digits :=
    (Nat.pow_lt_pow_iff_right (by decide)).1 (Nat.lt_of_le_of_lt hpow hb)
  omega

/-- Of two decimals with one value, the one that ends in a nonzero digit has the larger exponent. -/
theorem exponent_le_of_exact_eq {a b : Nat} {e f : Int} (ha : a % 10 ≠ 0)
    (h : exact a e = exact b f) : f ≤ e := by
  by_contra hlt
  have hshift : (f - e).toNat = (f - e).toNat - 1 + 1 := by omega
  have hlast : a % 10 = 0 := by
    rw [eq_mul_pow_of_exact_eq (Int.not_le.1 hlt).le h.symm, hshift, Nat.pow_succ,
      ← Nat.mul_assoc, Nat.mul_mod_left]
  exact ha hlast

theorem exact_injective {a b : Nat} {e f : Int} (ha : a % 10 ≠ 0) (hb : b % 10 ≠ 0)
    (h : exact a e = exact b f) : a = b ∧ e = f := by
  have hexponent : e = f :=
    Int.le_antisymm (exponent_le_of_exact_eq hb h.symm) (exponent_le_of_exact_eq ha h)
  subst hexponent
  exact ⟨exact_inj.1 h, rfl⟩

theorem lt_pow_digitCount (n : Nat) : n < 10 ^ digitCount n := by
  induction n using Nat.strongRecOn with
  | _ n ih =>
      by_cases hn : n < 10
      · rw [digitCount_of_lt hn]
        omega
      · have hdiv := ih (n / 10) (by omega)
        rw [digitCount_of_ge (Nat.le_of_not_lt hn), Nat.pow_succ]
        omega

theorem pow_digitCount_le {n : Nat} (h : n ≠ 0) : 10 ^ (digitCount n - 1) ≤ n := by
  induction n using Nat.strongRecOn with
  | _ n ih =>
      by_cases hn : n < 10
      · rw [digitCount_of_lt hn, Nat.sub_self, Nat.pow_zero]
        omega
      · have hdiv := ih (n / 10) (by omega) (by omega)
        have hpos := digitCount_pos (n / 10)
        have hpow : 10 ^ digitCount (n / 10) = 10 ^ (digitCount (n / 10) - 1) * 10 := by
          rw [← Nat.pow_succ]
          congr 1
          omega
        rw [digitCount_of_ge (Nat.le_of_not_lt hn), Nat.add_sub_cancel, hpow]
        omega

theorem digitCount_le {n k : Nat} (hn : n < 10 ^ k) (hk : 0 < k) : digitCount n ≤ k := by
  by_cases h : n = 0
  · rw [h, digitCount_of_lt (by decide)]
    omega
  · have hlt : digitCount n - 1 < k :=
      (Nat.pow_lt_pow_iff_right (by decide)).1 (Nat.lt_of_le_of_lt (pow_digitCount_le h) hn)
    omega

theorem exact_lt_zpow (n : Nat) (exponent : Int) :
    exact n exponent < (10 : Rat) ^ (exponent + digitCount n) := by
  unfold exact
  rw [zpow_add₀ (by norm_num), zpow_natCast, mul_comm]
  have hlt : (n : Rat) < 10 ^ digitCount n := by exact_mod_cast lt_pow_digitCount n
  exact mul_lt_mul_of_pos_left hlt (ten_zpow_pos exponent)

theorem zpow_le_exact {n : Nat} (h : n ≠ 0) (exponent : Int) :
    (10 : Rat) ^ (exponent + digitCount n - 1) ≤ exact n exponent := by
  have hcount := digitCount_pos n
  have hexponent : exponent + digitCount n - 1 = exponent + (digitCount n - 1 : Nat) := by
    omega
  unfold exact
  rw [hexponent, zpow_add₀ (by norm_num), zpow_natCast, mul_comm]
  have hle : (10 : Rat) ^ (digitCount n - 1) ≤ n := by exact_mod_cast pow_digitCount_le h
  exact mul_le_mul_of_nonneg_right hle (ten_zpow_pos exponent).le

/-- The number that the shortest digits of a double stand for; no number for infinities. -/
def Binary64.decimalValue : Binary64 → Rat
  | .finite negative significand exponent =>
      if significand = 0 then
        0
      else
        let (digits, power) := shortest significand exponent
        if negative then -exact digits power else exact digits power
  | .infinite _ => 0
  | .nan => 0

end Decimal

end WeightedKripke
