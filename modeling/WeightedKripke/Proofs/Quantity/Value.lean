import WeightedKripke.Proofs.Decimal.Value
import WeightedKripke.Proofs.Quantity.Normal

/-!
# Exact values of quantities

The value of a quantity is a rational number.  The normal form of a number has its
value, and two quantities with one value are equal, so equality of quantities
decides equality of values.
-/

namespace WeightedKripke

namespace Quantity

def value (q : Quantity) : Rat :=
  Decimal.exact q.coefficient q.exponent

theorem value_nonneg (q : Quantity) : 0 ≤ q.value :=
  Decimal.exact_nonneg q.coefficient q.exponent

@[simp] theorem value_zero : zero.value = 0 := by
  simp [value, zero]

theorem value_eq_zero_iff {q : Quantity} : q.value = 0 ↔ q.coefficient = 0 :=
  Decimal.exact_eq_zero_iff

theorem value_of_coefficient_eq_zero {q : Quantity} (h : q.coefficient = 0) : q.value = 0 :=
  value_eq_zero_iff.2 h

theorem value_injective {a b : Quantity} (h : a.value = b.value) : a = b := by
  by_cases hzero : a.coefficient = 0
  · have hvalue : b.value = 0 := by
      rw [← h, value_of_coefficient_eq_zero hzero]
    rw [eq_zero_of_coefficient hzero, eq_zero_of_coefficient (value_eq_zero_iff.1 hvalue)]
  · have hb : b.coefficient ≠ 0 := by
      intro hb
      rw [value_of_coefficient_eq_zero hb] at h
      exact hzero (value_eq_zero_iff.1 h)
    obtain ⟨hcoefficient, hexponent⟩ := Decimal.exact_injective
      (coefficient_mod_ne_zero hzero) (coefficient_mod_ne_zero hb) h
    exact Quantity.ext hcoefficient hexponent

theorem value_inj {a b : Quantity} : a.value = b.value ↔ a = b :=
  ⟨value_injective, congrArg value⟩

/-- The value of a nonzero quantity has no representation at a larger exponent. -/
theorem le_exponent_of_value {q : Quantity} {n : Nat} {exponent : Int}
    (hq : q.coefficient ≠ 0) (h : q.value = Decimal.exact n exponent) :
    exponent ≤ q.exponent :=
  Decimal.exponent_le_of_exact_eq (coefficient_mod_ne_zero hq) h

/-- A quantity is the normal form of every nonzero representation of its value. -/
theorem normal_of_value {q : Quantity} {n : Nat} {exponent : Int} (hn : n ≠ 0)
    (h : q.value = Decimal.exact n exponent) :
    q.coefficient = Decimal.stripZeros n ∧
      q.exponent = exponent + Decimal.trailingZeros n := by
  have hq : q.coefficient ≠ 0 := by
    intro hq
    rw [value_of_coefficient_eq_zero hq] at h
    exact hn (Decimal.exact_eq_zero_iff.1 h.symm)
  rw [← Decimal.exact_stripZeros n exponent] at h
  exact Decimal.exact_injective (coefficient_mod_ne_zero hq)
    (Decimal.stripZeros_mod_ne_zero hn) h

theorem value_normalForm {coefficient : Nat} {exponent : Int} (nonzero : coefficient ≠ 0)
    (coefficient_lt : coefficient < 2 ^ 64) (exponent_range : ExponentRange exponent)
    (fits : exponent + Decimal.trailingZeros coefficient < 2 ^ 63) :
    (normalForm coefficient exponent nonzero coefficient_lt exponent_range fits).value =
      Decimal.exact coefficient exponent :=
  Decimal.exact_stripZeros coefficient exponent

theorem value_of_ofParts {coefficient : Nat} {exponent : Int}
    {coefficient_lt : coefficient < 2 ^ 64} {exponent_range : ExponentRange exponent}
    {q : Quantity} (h : ofParts coefficient exponent coefficient_lt exponent_range = .ok q) :
    q.value = Decimal.exact coefficient exponent := by
  unfold ofParts at h
  split at h
  · rename_i hzero
    cases h
    simp [hzero]
  · split at h
    · cases h
      exact value_normalForm _ _ _ _
    · cases h

theorem value_of_ofWords {coefficient : UInt64} {exponent : Int64} {q : Quantity}
    (h : ofWords coefficient exponent = .ok q) :
    q.value = Decimal.exact coefficient.toNat exponent.toInt :=
  value_of_ofParts h

theorem value_ofNat (n : Nat) (h : n < 2 ^ 64) : (ofNat n h).value = n := by
  have hvalue := value_of_ofParts (ofParts_zero_exponent n h)
  rw [hvalue, Decimal.exact_zero_exponent]

theorem value_ofUInt64 (n : UInt64) : (ofUInt64 n).value = n.toNat :=
  value_ofNat n.toNat n.toNat_lt

theorem value_ofUInt32 (n : UInt32) : (ofUInt32 n).value = n.toNat := by
  rw [ofUInt32, value_ofUInt64, UInt32.toNat_toUInt64]

theorem value_of_ofInt64 {i : Int64} {q : Quantity} (h : ofInt64 i = .ok q) :
    q.value = i.toInt := by
  unfold ofInt64 at h
  split at h
  · cases h
  · rename_i hsign
    cases h
    have hcast : ((i.toInt.toNat : Int) : Rat) = i.toInt := by
      rw [Int.toNat_of_nonneg (Int.not_lt.1 hsign)]
    rw [value_ofNat, ← hcast]
    rfl

theorem value_of_ofBinary64 {x : Decimal.Binary64} {q : Quantity} (h : ofBinary64 x = .ok q) :
    q.value = x.decimalValue := by
  cases x with
  | nan => cases h
  | infinite negative => cases h
  | finite negative significand exponent =>
      by_cases hzero : significand = 0
      · simp only [ofBinary64, hzero, if_true] at h
        cases h
        simp [Decimal.Binary64.decimalValue, hzero]
      · cases negative with
        | true => simp [ofBinary64, hzero] at h
        | false =>
            simp only [ofBinary64, hzero, if_false, Bool.false_eq_true] at h
            simp only [Decimal.Binary64.decimalValue, hzero, if_false, Bool.false_eq_true]
            generalize Decimal.shortest significand exponent = shortest at h ⊢
            obtain ⟨digits, power⟩ := shortest
            simp only at h ⊢
            split at h
            · rename_i hpower
              split at h
              · cases h
                have hshift := Decimal.exact_mul_pow digits power.toNat 0
                rw [Int.zero_add, Int.toNat_of_nonneg hpower,
                  Decimal.exact_zero_exponent] at hshift
                rw [value_ofNat, hshift]
              · cases h
            · split at h
              · exact value_of_ofParts h
              · cases h

end Quantity

end WeightedKripke
