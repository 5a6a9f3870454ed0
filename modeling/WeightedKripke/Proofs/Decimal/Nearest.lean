import Mathlib.Algebra.Order.Group.Unbundled.Abs
import WeightedKripke.Proofs.Decimal.Value

/-!
# The double nearest to a number

Doubles are multiples of powers of two with 53 bits.  The gap after a double is its last
bit; the gap before it is the same, or half of it before a power of two.  Every number that
is not further away than half a gap is read as the double, the halves themselves by doubles
that are even.  Two numbers that are read as different doubles are in the order of the
doubles.
-/

namespace WeightedKripke

namespace Decimal

def binary (significand : Nat) (exponent : Int) : Rat :=
  (significand : Rat) * (2 : Rat) ^ exponent

namespace Binary64

/--
A significand and an exponent as doubles have them: 53 bits, and the first one is set
unless the exponent is the least one.
-/
structure Canonical (significand : Nat) (exponent : Int) : Prop where
  significand_lt : significand < 2 * hiddenBit
  exponent_ge : minExponent ≤ exponent
  normal : hiddenBit ≤ significand ∨ exponent = minExponent

/-- The quarters of the last bit that lie between a double and the middle of the gap below it. -/
def quartersBelow (significand : Nat) (exponent : Int) : Nat :=
  if significand = hiddenBit ∧ minExponent < exponent then 1 else 2

theorem quartersBelow_le (significand : Nat) (exponent : Int) :
    quartersBelow significand exponent ≤ 2 := by
  unfold quartersBelow
  split <;> decide

/-- Behind the first of the numbers with the same exponent the gap is a whole last bit. -/
theorem quartersBelow_le_of_normal {significand : Nat} {exponent : Int}
    (hnormal : hiddenBit ≤ significand) (hexponent : minExponent < exponent) :
    2 * hiddenBit + quartersBelow significand exponent ≤ 2 * significand + 1 := by
  unfold quartersBelow
  split <;> omega

theorem canonical_of_ofBits {bits : UInt64} {negative : Bool} {significand : Nat}
    {exponent : Int} (h : ofBits bits = .finite negative significand exponent) :
    Canonical significand exponent := by
  have hfraction : bits.toNat % 2 ^ 52 < 2 ^ 52 := Nat.mod_lt _ (by decide)
  unfold ofBits at h
  simp only at h
  split at h
  · split at h <;> cases h
  · split at h <;> cases h
    · exact ⟨by unfold hiddenBit; omega, Int.le_refl _, Or.inr rfl⟩
    · exact ⟨by unfold hiddenBit; omega, by omega, Or.inl (Nat.le_add_right _ _)⟩

end Binary64

open Binary64

variable {m n : Nat} {e f : Int} {x y : Rat}

theorem two_zpow_pos (exponent : Int) : (0 : Rat) < (2 : Rat) ^ exponent := by
  positivity

@[simp] theorem binary_zero (exponent : Int) : binary 0 exponent = 0 := by
  simp [binary]

theorem binary_succ (m : Nat) (e : Int) : binary (m + 1) e = binary m e + (2 : Rat) ^ e := by
  unfold binary
  push_cast
  ring

/-! ## Gaps between doubles -/

/-- Doubles with a larger exponent start behind the gap after all with a smaller one. -/
theorem binary_succ_le_of_exponent_lt (hm : Canonical m e) (hn : Canonical n f) (h : e < f) :
    binary (m + 1) e ≤ binary n f := by
  have hleast := hm.exponent_ge
  have hnormal : hiddenBit ≤ n := hn.normal.resolve_right (by omega)
  have hsucc : ((m + 1 : Nat) : Rat) ≤ 2 * hiddenBit := by exact_mod_cast hm.significand_lt
  have hhidden : (hiddenBit : Rat) ≤ n := by exact_mod_cast hnormal
  have hpow : (2 : Rat) ^ (e + 1) ≤ (2 : Rat) ^ f :=
    zpow_le_zpow_right₀ (by norm_num) (by omega)
  calc
    binary (m + 1) e ≤ 2 * hiddenBit * (2 : Rat) ^ e :=
      mul_le_mul_of_nonneg_right hsucc (two_zpow_pos e).le
    _ = hiddenBit * (2 : Rat) ^ (e + 1) := by
      rw [zpow_add_one₀ (by norm_num)]
      ring
    _ ≤ binary n f := mul_le_mul hhidden hpow (two_zpow_pos _).le (Nat.cast_nonneg n)

/-- There is no double in the gap after a double. -/
theorem binary_succ_le (hm : Canonical m e) (hn : Canonical n f) (h : binary m e < binary n f) :
    binary (m + 1) e ≤ binary n f := by
  rcases lt_trichotomy e f with hlt | rfl | hgt
  · exact binary_succ_le_of_exponent_lt hm hn hlt
  · unfold binary at h ⊢
    have hcast := lt_of_mul_lt_mul_right h (two_zpow_pos e).le
    have hle : ((m + 1 : Nat) : Rat) ≤ n := by exact_mod_cast hcast
    exact mul_le_mul_of_nonneg_right hle (two_zpow_pos e).le
  · have hback := binary_succ_le_of_exponent_lt hn hm hgt
    rw [binary_succ] at hback
    have hpos := two_zpow_pos f
    linarith

/-- There is no double in the gap before a double. -/
theorem binary_le_sub (hm : Canonical m e) (hn : Canonical n f) (h : binary n f < binary m e) :
    binary n f ≤ binary m e - quartersBelow m e / 2 * (2 : Rat) ^ e := by
  have hpos := two_zpow_pos e
  rcases Int.lt_or_le f e with hlt | hge
  -- The largest number with the exponent below ends half a bit before the hidden bit.
  · have hleast := hn.exponent_ge
    have hnormal : hiddenBit ≤ m := hm.normal.resolve_right (by omega)
    have hbelow : (n : Rat) ≤ 2 * hiddenBit - 1 := by
      have hsucc : ((n + 1 : Nat) : Rat) ≤ 2 * hiddenBit := by exact_mod_cast hn.significand_lt
      push_cast at hsucc
      linarith
    have hhidden : (2 : Rat) * hiddenBit - 1 ≤ 2 * m - quartersBelow m e := by
      have hquarters : (2 : Rat) * hiddenBit + quartersBelow m e ≤ 2 * m + 1 := by
        exact_mod_cast quartersBelow_le_of_normal hnormal (by omega)
      linarith
    have hpow : (2 : Rat) ^ f ≤ (2 : Rat) ^ (e - 1) :=
      zpow_le_zpow_right₀ (by norm_num) (by omega)
    have hhalf : (2 : Rat) ^ (e - 1) = (2 : Rat) ^ e / 2 := zpow_sub_one₀ (by norm_num) e
    calc
      binary n f ≤ n * (2 : Rat) ^ (e - 1) := mul_le_mul_of_nonneg_left hpow (Nat.cast_nonneg n)
      _ ≤ (2 * m - quartersBelow m e) * ((2 : Rat) ^ e / 2) := by
        rw [hhalf]
        exact mul_le_mul_of_nonneg_right (hbelow.trans hhidden) (by linarith)
      _ = binary m e - quartersBelow m e / 2 * (2 : Rat) ^ e := by
        unfold binary
        ring
  · have hgap := binary_succ_le hn hm h
    have hpow : (2 : Rat) ^ e ≤ (2 : Rat) ^ f := zpow_le_zpow_right₀ (by norm_num) hge
    have hquarters : (quartersBelow m e : Rat) / 2 ≤ 1 := by
      have hle : (quartersBelow m e : Rat) ≤ 2 := by exact_mod_cast quartersBelow_le m e
      linarith
    have hbelow : quartersBelow m e / 2 * (2 : Rat) ^ e ≤ 1 * (2 : Rat) ^ e :=
      mul_le_mul_of_nonneg_right hquarters hpos.le
    rw [binary_succ] at hgap
    linarith

/-! ## Reading a number as a double -/

/--
`x` is read as `m × 2 ^ e`: no double is nearer, and `m` is even if another one is as near.

The exponents of the others are not bounded above, so a number that is nearer to the next
power of two than to the largest double is not read as that.
-/
structure ReadsAs (x : Rat) (m : Nat) (e : Int) : Prop where
  near : ∀ {n : Nat} {f : Int}, Canonical n f → |x - binary m e| ≤ |x - binary n f|
  even : ∀ {n : Nat} {f : Int}, Canonical n f → binary n f ≠ binary m e →
    |x - binary n f| = |x - binary m e| → m % 2 = 0

/-- The numbers up to the middle of the gaps, and the middles of an even double. -/
structure WithinHalfGaps (x : Rat) (m : Nat) (e : Int) : Prop where
  lower : binary m e - quartersBelow m e / 4 * (2 : Rat) ^ e ≤ x
  upper : x ≤ binary m e + 1 / 2 * (2 : Rat) ^ e
  ends : m % 2 = 0 ∨ binary m e - quartersBelow m e / 4 * (2 : Rat) ^ e < x ∧
    x < binary m e + 1 / 2 * (2 : Rat) ^ e

/-- Half gaps are read as the double that they belong to. -/
theorem WithinHalfGaps.readsAs (h : WithinHalfGaps x m e) (hm : Canonical m e) :
    ReadsAs x m e where
  near {n f} hn := by
    have hlower := h.lower
    have hupper := h.upper
    rcases lt_trichotomy (binary n f) (binary m e) with hlt | heq | hgt
    · have hgap := binary_le_sub hm hn hlt
      have habs := le_abs_self (x - binary n f)
      exact abs_le.2 ⟨by linarith, by linarith⟩
    · rw [heq]
    · have hgap := binary_succ_le hm hn hgt
      have habs := neg_le_abs (x - binary n f)
      rw [binary_succ] at hgap
      exact abs_le.2 ⟨by linarith, by linarith⟩
  even {n f} hn hne htie := by
    refine h.ends.resolve_right fun ⟨hlower, hupper⟩ => ?_
    refine absurd htie (ne_of_gt ?_)
    rcases lt_or_gt_of_ne hne with hlt | hgt
    · have hgap := binary_le_sub hm hn hlt
      have habs := le_abs_self (x - binary n f)
      exact abs_lt.2 ⟨by linarith, by linarith⟩
    · have hgap := binary_succ_le hm hn hgt
      have habs := neg_le_abs (x - binary n f)
      rw [binary_succ] at hgap
      exact abs_lt.2 ⟨by linarith, by linarith⟩

theorem canonical_succ (hm : Canonical m e) (heven : m % 2 = 0) : Canonical (m + 1) e where
  significand_lt := by
    have hlt := hm.significand_lt
    unfold hiddenBit at *
    omega
  exponent_ge := hm.exponent_ge
  normal := hm.normal.imp_left Nat.le_succ_of_le

theorem binary_injective (hm : Canonical m e) (hn : Canonical n f) (h : binary m e = binary n f) :
    m = n ∧ e = f := by
  rcases lt_trichotomy e f with hlt | rfl | hgt
  · have hgap := binary_succ_le_of_exponent_lt hm hn hlt
    have hpos := two_zpow_pos e
    rw [binary_succ] at hgap
    linarith
  · have hcast := mul_right_cancel₀ (two_zpow_pos e).ne' h
    exact ⟨by exact_mod_cast hcast, rfl⟩
  · have hgap := binary_succ_le_of_exponent_lt hn hm hgt
    have hpos := two_zpow_pos f
    rw [binary_succ] at hgap
    linarith

theorem le_middle {a b : Rat} (h : a < b) (hnear : |x - a| ≤ |x - b|) : x ≤ (a + b) / 2 := by
  by_contra hgt
  rw [not_le] at hgt
  have habs := le_abs_self (x - a)
  have hcloser : |x - b| < x - a := abs_lt.2 ⟨by linarith, by linarith⟩
  linarith

theorem middle_le {a b : Rat} (h : a < b) (hnear : |x - b| ≤ |x - a|) : (a + b) / 2 ≤ x := by
  by_contra hlt
  rw [not_le] at hlt
  have habs := neg_le_abs (x - b)
  have hcloser : |x - a| < b - x := abs_lt.2 ⟨by linarith, by linarith⟩
  linarith

theorem ReadsAs.lt (hx : ReadsAs x m e) (hy : ReadsAs y n f) (hm : Canonical m e)
    (hn : Canonical n f) (h : binary m e < binary n f) : x < y := by
  by_contra hge
  have hxle := le_middle h (hx.near hn)
  have hyge := middle_le h (hy.near hm)
  -- Otherwise both numbers are the middle, and both doubles are even.
  have hxmiddle : x = (binary m e + binary n f) / 2 := by linarith
  have hymiddle : y = (binary m e + binary n f) / 2 := by linarith
  have hbelow : |x - binary m e| = (binary n f - binary m e) / 2 := by
    rw [hxmiddle, abs_of_pos] <;> linarith
  have habove : |x - binary n f| = (binary n f - binary m e) / 2 := by
    rw [hxmiddle, abs_of_neg] <;> linarith
  have hmeven := hx.even hn h.ne' (habove.trans hbelow.symm)
  have hneven := hy.even hm h.ne (by rw [hymiddle, ← hxmiddle, hbelow, habove])
  -- So the double after the lower one lies between them, and is nearer.
  have hsucc := canonical_succ hm hmeven
  rcases (binary_succ_le hm hn h).eq_or_lt with heq | hlt
  · have hsame := (binary_injective hsucc hn heq).1
    omega
  · have hnear := hx.near hsucc
    have hcloser : |x - binary (m + 1) e| < (binary n f - binary m e) / 2 := by
      have hpos := two_zpow_pos e
      have hnext := binary_succ m e
      exact abs_lt.2 ⟨by linarith, by linarith⟩
    linarith

/-! ## Numbers that are not read as zero -/

theorem canonical_zero : Canonical 0 minExponent where
  significand_lt := by decide
  exponent_ge := Int.le_refl _
  normal := Or.inr rfl

theorem binary_pos (hne : m ≠ 0) (e : Int) : 0 < binary m e :=
  mul_pos (Nat.cast_pos.2 (Nat.pos_of_ne_zero hne)) (two_zpow_pos e)

/-- A number that is not nearer to zero than to a double is at least the half of it. -/
theorem ReadsAs.half_le (h : ReadsAs x m e) (hne : m ≠ 0) : binary m e / 2 ≤ x := by
  have hpos := binary_pos hne e
  rw [← binary_zero minExponent] at hpos
  have hmiddle := middle_le hpos (h.near canonical_zero)
  rwa [binary_zero, zero_add] at hmiddle

/-- The least double is a power of two, so it is not below the same power of ten. -/
theorem zpow_minExponent_le (hm : Canonical m e) (hne : m ≠ 0) :
    (10 : Rat) ^ minExponent ≤ binary m e := by
  have hbase : (10 : Rat) ^ minExponent ≤ (2 : Rat) ^ minExponent := by
    rw [minExponent, zpow_neg, zpow_neg]
    exact inv_anti₀ (two_zpow_pos 1074) (zpow_le_zpow_left₀ (by decide) (by norm_num) (by norm_num))
  have hexponent : (2 : Rat) ^ minExponent ≤ (2 : Rat) ^ e :=
    zpow_le_zpow_right₀ (by norm_num) hm.exponent_ge
  have hone : (1 : Rat) ≤ m := by exact_mod_cast Nat.pos_of_ne_zero hne
  have hbinary : (2 : Rat) ^ e ≤ binary m e := le_mul_of_one_le_left (two_zpow_pos e).le hone
  linarith

/-- Few digits need no more places than the least doubles have. -/
theorem ReadsAs.power_gt {digits : Nat} {power : Int} (h : ReadsAs (exact digits power) m e)
    (hm : Canonical m e) (hne : m ≠ 0) (hdigits : digits < 10 ^ 17) : -1100 < power := by
  by_contra hle
  have hhalf := h.half_le hne
  have hleast := zpow_minExponent_le hm hne
  have hcast : (digits : Rat) ≤ (10 : Rat) ^ (17 : Int) := by exact_mod_cast hdigits.le
  have hsmall : exact digits power ≤ (10 : Rat) ^ (minExponent - 1) := by
    calc
      exact digits power ≤ (10 : Rat) ^ (17 : Int) * (10 : Rat) ^ power :=
        mul_le_mul_of_nonneg_right hcast (ten_zpow_pos power).le
      _ = (10 : Rat) ^ (17 + power) := (zpow_add₀ (by norm_num) _ _).symm
      _ ≤ (10 : Rat) ^ (minExponent - 1) := by
        refine zpow_le_zpow_right₀ (by norm_num) ?_
        unfold minExponent
        omega
  have htenth : (10 : Rat) ^ (minExponent - 1) = (10 : Rat) ^ minExponent / 10 :=
    zpow_sub_one₀ (by norm_num) minExponent
  have hpos := ten_zpow_pos minExponent
  linarith

end Decimal

end WeightedKripke
