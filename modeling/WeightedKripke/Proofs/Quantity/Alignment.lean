import WeightedKripke.Proofs.Quantity.Order
import WeightedKripke.Quantity.Arithmetic

/-!
# Aligned coefficients

`q.scaledTo e` is the coefficient of `q` at an exponent `e` not above its own, as a
number of any size.  Aligning returns this number when it fits 64 bits and reports an
overflow when it does not: a nonzero coefficient that is shifted further than the
longest power of ten cannot fit.
-/

namespace WeightedKripke

namespace Quantity

def commonExponent (a b : Quantity) : Int :=
  min a.exponent b.exponent

/-- The coefficient at an exponent not above that of `q`, whether it fits or not. -/
def scaledTo (q : Quantity) (exponent : Int) : Nat :=
  q.coefficient * 10 ^ (q.exponent - exponent).toNat

variable {a b q : Quantity} {exponent : Int}

theorem commonExponent_le_left (a b : Quantity) : commonExponent a b ≤ a.exponent :=
  Int.min_le_left a.exponent b.exponent

theorem commonExponent_le_right (a b : Quantity) : commonExponent a b ≤ b.exponent :=
  Int.min_le_right a.exponent b.exponent

theorem commonExponent_comm (a b : Quantity) : commonExponent a b = commonExponent b a :=
  Int.min_comm a.exponent b.exponent

theorem exact_scaledTo (h : exponent ≤ q.exponent) :
    Decimal.exact (q.scaledTo exponent) exponent = q.value := by
  have hshift : exponent + (q.exponent - exponent).toNat = q.exponent := by omega
  rw [scaledTo, Decimal.exact_mul_pow, hshift]
  rfl

theorem scaledTo_ne_zero (h : q.coefficient ≠ 0) : q.scaledTo exponent ≠ 0 :=
  Nat.mul_ne_zero h (Nat.pow_pos (by decide)).ne'

/-- Nothing is shifted at the exponent of `q` or above it. -/
theorem scaledTo_of_le (h : q.exponent ≤ exponent) : q.scaledTo exponent = q.coefficient := by
  have hshift : (q.exponent - exponent).toNat = 0 := by omega
  rw [scaledTo, hshift, Nat.pow_zero, Nat.mul_one]

theorem scaledTo_mod_ten (h : exponent < q.exponent) : q.scaledTo exponent % 10 = 0 := by
  have hshift : (q.exponent - exponent).toNat = (q.exponent - exponent).toNat - 1 + 1 := by
    omega
  rw [scaledTo, hshift, Nat.pow_succ, ← Nat.mul_assoc, Nat.mul_mod_left]

/-- No power of ten beyond the longest one fits 64 bits. -/
theorem ten_pow_lt_iff {shift : Nat} : 10 ^ shift < 2 ^ 64 ↔ shift ≤ maxShift := by
  constructor
  · intro h
    have hpow : 10 ^ shift < 10 ^ (maxShift + 1) := Nat.lt_trans h (by decide)
    exact Nat.le_of_lt_succ ((Nat.pow_lt_pow_iff_right (by decide)).1 hpow)
  · intro h
    exact Nat.lt_of_le_of_lt (Nat.pow_le_pow_right (by decide) h) (by decide)

theorem coefficientAt_of_fits (hq : q.coefficient ≠ 0) (h : q.scaledTo exponent < 2 ^ 64) :
    q.coefficientAt exponent = .ok ⟨q.scaledTo exponent, h⟩ := by
  have hpow : 10 ^ (q.exponent - exponent).toNat < 2 ^ 64 :=
    calc
      10 ^ (q.exponent - exponent).toNat ≤ q.scaledTo exponent :=
        Nat.le_mul_of_pos_left _ (Nat.pos_of_ne_zero hq)
      _ < 2 ^ 64 := h
  have hshift : (q.exponent - exponent).toNat ≤ maxShift := ten_pow_lt_iff.1 hpow
  unfold coefficientAt
  simp only
  rw [if_pos hshift]
  exact dif_pos h

theorem coefficientAt_of_large (h : 2 ^ 64 ≤ q.scaledTo exponent) :
    q.coefficientAt exponent = .error (.overflow (.alignment q exponent)) := by
  have hnot : ¬ q.coefficient * 10 ^ (q.exponent - exponent).toNat < 2 ^ 64 :=
    Nat.not_lt.2 h
  unfold coefficientAt
  simp only [dif_neg hnot, ite_self]

theorem val_of_coefficientAt {n : { n : Nat // n < 2 ^ 64 }}
    (h : q.coefficientAt exponent = .ok n) : n.val = q.scaledTo exponent := by
  unfold coefficientAt at h
  simp only at h
  split at h
  · split at h
    · cases h
      rfl
    · cases h
  · cases h

/--
The coefficient at a lower exponent as it is computed in words.

The distance of the exponents is a signed word of 64 bits and then an unsigned one of
32 bits; the power of ten and the product are unsigned words of 64 bits.
-/
def scaleInWords (q : Quantity) (exponent : Int) : Option Nat :=
  let distance := q.exponent - exponent
  if ExponentRange distance ∧ 0 ≤ distance ∧ distance < 2 ^ 32 then
    let factor := 10 ^ distance.toNat
    if factor < 2 ^ 64 ∧ q.coefficient * factor < 2 ^ 64 then
      some (q.coefficient * factor)
    else
      none
  else
    none

/-- Aligning returns what is computed in words, or reports that a step does not fit. -/
theorem coefficientAt_eq_scaleInWords (h : exponent ≤ q.exponent) :
    (q.coefficientAt exponent).map Subtype.val =
      (q.scaleInWords exponent).elim (.error (.overflow (.alignment q exponent))) .ok := by
  unfold coefficientAt scaleInWords
  dsimp only
  by_cases hshift : (q.exponent - exponent).toNat ≤ maxShift
  · have hdistance : ExponentRange (q.exponent - exponent) ∧ 0 ≤ q.exponent - exponent ∧
        q.exponent - exponent < 2 ^ 32 := by
      unfold maxShift at hshift
      unfold ExponentRange
      omega
    rw [if_pos hshift, if_pos hdistance]
    by_cases hfits : q.coefficient * 10 ^ (q.exponent - exponent).toNat < 2 ^ 64
    · rw [dif_pos hfits, if_pos ⟨ten_pow_lt_iff.2 hshift, hfits⟩]
      rfl
    · rw [dif_neg hfits, if_neg fun hboth => hfits hboth.2]
      rfl
  · have hfactor : ¬ 10 ^ (q.exponent - exponent).toNat < 2 ^ 64 := fun hlt =>
      hshift (ten_pow_lt_iff.1 hlt)
    simp only [if_neg hshift, hfactor, false_and, if_false, ite_self]
    rfl

/-! ## Quantities at the limits

With `1`, `2` and `5` they meet every bound of the operations. -/

def widest : Quantity :=
  ⟨2 ^ 64 - 1, 0, by decide, by decide, by decide⟩

/-- The smallest power of ten that does not fit a coefficient. -/
def tooFar : Quantity :=
  ⟨1, 20, by decide, by decide, by decide⟩

/-- The largest power of ten that fits a coefficient. -/
def farthest : Quantity :=
  ⟨1, 19, by decide, by decide, by decide⟩

def topOne : Quantity :=
  ⟨1, 2 ^ 63 - 1, by decide, by decide, by decide⟩

def topFive : Quantity :=
  ⟨5, 2 ^ 63 - 1, by decide, by decide, by decide⟩

def topEleven : Quantity :=
  ⟨11, 2 ^ 63 - 1, by decide, by decide, by decide⟩

/-- A number of tens that fits a coefficient, but not as a number of ones. -/
def wideTens : Quantity :=
  ⟨2 ^ 64 - 3, 1, by decide, by decide, by decide⟩

/-- A quantity of 20 digits to which `1` adds a zero. -/
def nearWidest : Quantity :=
  ⟨2 ^ 64 - 7, 0, by decide, by decide, by decide⟩

def one : Quantity :=
  ⟨1, 0, by decide, by decide, by decide⟩

def two : Quantity :=
  ⟨2, 0, by decide, by decide, by decide⟩

def five : Quantity :=
  ⟨5, 0, by decide, by decide, by decide⟩

def bottomOne : Quantity :=
  ⟨1, -2 ^ 63, by decide, by decide, by decide⟩

def half : Quantity :=
  ⟨5, -1, by decide, by decide, by decide⟩

end Quantity

end WeightedKripke
