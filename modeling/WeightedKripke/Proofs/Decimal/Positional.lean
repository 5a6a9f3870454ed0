import Mathlib.Data.List.Basic
import WeightedKripke.Decimal.Shortest
import WeightedKripke.Proofs.Decimal.Text

/-!
# Plain decimals

A plain decimal is a run of digits, or two with a point between them.  The first one has no
zero in front, unless it is a single zero, and the second one has none behind.  Positional
text of digits and a power of ten is a plain decimal: its runs together are the digits, with
zeros in front or behind, and a negative power is the length of the second one.
-/

namespace WeightedKripke

namespace Decimal

/-- `text` is `whole`, followed by a point and `fraction` if there is a fraction. -/
structure PlainDecimal (text whole fraction : List Char) : Prop where
  text_eq : text = if fraction = [] then whole else whole ++ '.' :: fraction
  whole_digits : ∀ c, c ∈ whole → c.isDigit = true
  fraction_digits : ∀ c, c ∈ fraction → c.isDigit = true
  whole_ne_nil : whole ≠ []
  start : whole = ['0'] ∨ whole.head? ≠ some '0'
  ending : fraction.getLast? ≠ some '0'

/-! ## Zeros in front and behind -/

theorem valueOf_zeros_append (zeros : Nat) (digits : List Char) :
    valueOf (List.replicate zeros '0' ++ digits) = valueOf digits := by
  induction zeros with
  | zero => rfl
  | succ zeros ih =>
      rw [List.replicate_succ, List.cons_append, ← ih]
      rfl

theorem valueOf_dropWhile_zeros (digits : List Char) :
    valueOf (digits.dropWhile (· == '0')) = valueOf digits := by
  induction digits with
  | nil => rfl
  | cons c digits ih =>
      by_cases hc : c = '0'
      · subst hc
        rw [List.dropWhile_cons_of_pos (by rfl), ih]
        rfl
      · rw [List.dropWhile_cons_of_neg (by simpa using hc)]

theorem getLast?_natText (n : Nat) : (natText n).getLast? = some (digitChar (n % 10)) := by
  by_cases h : n < 10
  · rw [natText_of_lt h, Nat.mod_eq_of_lt h]
    rfl
  · rw [natText_of_ge (Nat.le_of_not_lt h), List.getLast?_concat]

theorem getLast?_natText_ne {n : Nat} (h : n % 10 ≠ 0) : (natText n).getLast? ≠ some '0' := by
  rw [getLast?_natText]
  intro hzero
  have hvalue := digitValue_digitChar (Nat.mod_lt n (by decide : 0 < 10))
  rw [Option.some.inj hzero] at hvalue
  exact h hvalue.symm

theorem isDigit_of_mem_zeros {zeros : Nat} {c : Char} (h : c ∈ List.replicate zeros '0') :
    c.isDigit = true := by
  rw [List.eq_of_mem_replicate h]
  rfl

/-! ## Positional text -/

variable {digits : Nat} {power : Int}

/-- Without a fraction the digits are followed by zeros. -/
theorem plainDecimal_of_power_nonneg (hdigits : digits ≠ 0) (hpower : 0 ≤ power) :
    PlainDecimal (positionalText digits power)
      (natText digits ++ List.replicate power.toNat '0') [] where
  text_eq := by
    unfold positionalText
    rw [if_pos hpower, if_pos rfl]
  whole_digits c hc := by
    rcases List.mem_append.1 hc with hrun | hzero
    · exact isDigit_of_mem_natText hrun
    · exact isDigit_of_mem_zeros hzero
  fraction_digits c hc := absurd hc List.not_mem_nil
  whole_ne_nil := List.append_ne_nil_of_left_ne_nil (natText_ne_nil digits) _
  start := by
    rw [List.head?_append_of_ne_nil _ (natText_ne_nil digits)]
    exact Or.inr (head?_natText hdigits)
  ending := by simp

/-- The point splits the digits if there are more of them than places. -/
theorem plainDecimal_of_places_lt (hlast : digits % 10 ≠ 0) (hpower : power < 0)
    (hplaces : (-power).toNat < (natText digits).length) :
    PlainDecimal (positionalText digits power)
      ((natText digits).take ((natText digits).length - (-power).toNat))
      ((natText digits).drop ((natText digits).length - (-power).toNat)) where
  text_eq := by
    have hfraction : (natText digits).drop ((natText digits).length - (-power).toNat) ≠ [] := by
      rw [Ne, List.drop_eq_nil_iff]
      omega
    unfold positionalText
    simp only
    rw [if_neg (Int.not_le.2 hpower), if_pos hplaces, if_neg hfraction]
  whole_digits c hc := isDigit_of_mem_natText (List.mem_of_mem_take hc)
  fraction_digits c hc := isDigit_of_mem_natText (List.mem_of_mem_drop hc)
  whole_ne_nil := by
    rw [Ne, List.take_eq_nil_iff]
    have hne := natText_ne_nil digits
    rintro (hzero | hnil)
    · omega
    · exact hne hnil
  start := by
    have hdigits : digits ≠ 0 := by
      rintro rfl
      exact hlast rfl
    rw [List.head?_take, if_neg (by omega)]
    exact Or.inr (head?_natText hdigits)
  ending := by
    rw [List.getLast?_drop, if_neg (by omega)]
    exact getLast?_natText_ne hlast

/-- Behind a single zero and the point, zeros fill the places in front of the digits. -/
theorem plainDecimal_of_length_le (hlast : digits % 10 ≠ 0) (hpower : power < 0)
    (hplaces : (natText digits).length ≤ (-power).toNat) :
    PlainDecimal (positionalText digits power) ['0']
      (List.replicate ((-power).toNat - (natText digits).length) '0' ++ natText digits) where
  text_eq := by
    have hne := List.append_ne_nil_of_right_ne_nil
      (List.replicate ((-power).toNat - (natText digits).length) '0') (natText_ne_nil digits)
    unfold positionalText
    simp only
    rw [if_neg (Int.not_le.2 hpower), if_neg (Nat.not_lt.2 hplaces), if_neg hne]
    rfl
  whole_digits c hc := by
    rw [List.mem_singleton.1 hc]
    rfl
  fraction_digits c hc := by
    rcases List.mem_append.1 hc with hzero | hrun
    · exact isDigit_of_mem_zeros hzero
    · exact isDigit_of_mem_natText hrun
  whole_ne_nil := List.cons_ne_nil _ _
  start := Or.inl rfl
  ending := by
    rw [List.getLast?_append_of_ne_nil _ (natText_ne_nil digits)]
    exact getLast?_natText_ne hlast

/-- Positional text is a plain decimal of the digits, the fraction as long as the power is low. -/
theorem plainDecimal_positionalText (hlast : digits % 10 ≠ 0) (power : Int) :
    ∃ whole fraction, PlainDecimal (positionalText digits power) whole fraction ∧
      valueOf (whole ++ fraction) = digits * 10 ^ power.toNat ∧
      fraction.length = (-power).toNat := by
  have hdigits : digits ≠ 0 := by
    rintro rfl
    exact hlast rfl
  rcases Int.lt_or_le power 0 with hpower | hpower
  · have hunit : digits * 10 ^ power.toNat = digits := by
      rw [Int.toNat_of_nonpos (Int.le_of_lt hpower), Nat.pow_zero, Nat.mul_one]
    rw [hunit]
    rcases Nat.lt_or_ge (-power).toNat (natText digits).length with hplaces | hplaces
    · refine ⟨_, _, plainDecimal_of_places_lt hlast hpower hplaces, ?_, ?_⟩
      · rw [List.take_append_drop, valueOf_natText]
      · rw [List.length_drop]
        omega
    · refine ⟨_, _, plainDecimal_of_length_le hlast hpower hplaces, ?_, ?_⟩
      · have hzeros := valueOf_zeros_append
          ((-power).toNat - (natText digits).length + 1) (natText digits)
        rw [List.replicate_succ, List.cons_append, valueOf_natText] at hzeros
        exact hzeros
      · rw [List.length_append, List.length_replicate]
        omega
  · refine ⟨_, _, plainDecimal_of_power_nonneg hdigits hpower, ?_, ?_⟩
    · rw [List.append_nil, valueOf_append_zeros, valueOf_natText]
    · rw [Int.toNat_of_nonpos (by omega : -power ≤ 0)]
      rfl

/-! ## Splitting at the point -/

variable {text whole fraction : List Char}

/-- What stands in front of the first point and behind it; nothing if there is no point. -/
def splitAtPoint? (text : List Char) : Option (List Char × List Char) :=
  match text.span (· != '.') with
  | (_, []) => none
  | (whole, _ :: fraction) => some (whole, fraction)

theorem ne_point_of_isDigit {c : Char} (h : c.isDigit = true) : (c != '.') = true := by
  rw [bne_iff_ne]
  rintro rfl
  exact absurd h (by decide)

theorem PlainDecimal.splitAtPoint?_eq (h : PlainDecimal text whole fraction) :
    splitAtPoint? text = if fraction = [] then none else some (whole, fraction) := by
  have hwhole : ∀ c, c ∈ whole → (c != '.') = true :=
    fun c hc => ne_point_of_isDigit (h.whole_digits c hc)
  -- Nothing in front of the rest stops the search for the point.
  have hspan : ∀ rest, (whole ++ rest).span (· != '.') =
      (whole ++ rest.takeWhile (· != '.'), rest.dropWhile (· != '.')) := by
    intro rest
    rw [List.span_eq_takeWhile_dropWhile, List.takeWhile_append_of_pos hwhole,
      List.dropWhile_append_of_pos hwhole]
  unfold splitAtPoint?
  by_cases hfraction : fraction = []
  · have hnone := hspan []
    rw [List.append_nil] at hnone
    rw [h.text_eq, if_pos hfraction, if_pos hfraction, hnone]
    rfl
  · rw [h.text_eq, if_neg hfraction, if_neg hfraction, hspan]
    simp

theorem PlainDecimal.unique {whole' fraction' : List Char}
    (h : PlainDecimal text whole fraction) (h' : PlainDecimal text whole' fraction') :
    whole = whole' ∧ fraction = fraction' := by
  have htext := h.text_eq.symm.trans h'.text_eq
  have hparts := h.splitAtPoint?_eq.symm.trans h'.splitAtPoint?_eq
  by_cases hfraction : fraction = [] <;> by_cases hfraction' : fraction' = []
  · rw [if_pos hfraction, if_pos hfraction'] at htext
    exact ⟨htext, hfraction.trans hfraction'.symm⟩
  · simp [hfraction, hfraction'] at hparts
  · simp [hfraction, hfraction'] at hparts
  · rw [if_neg hfraction, if_neg hfraction', Option.some.injEq, Prod.mk.injEq] at hparts
    exact hparts

end Decimal

end WeightedKripke
