import Mathlib.Data.List.TakeWhile
import WeightedKripke.Proofs.Decimal.Positional
import WeightedKripke.Proofs.Decimal.Shortest
import WeightedKripke.Proofs.Quantity.Comparison
import WeightedKripke.Proofs.Quantity.Stripping

/-!
# Doubles are converted by their text

The text of a positive double is a plain decimal with few digits that is read as the double.
Its two runs of digits together are the coefficient, and every place behind the point lowers
the exponent.  So the quantity has the value of the text, whatever decimal of this kind the
text is, and the only texts that do not fit a coefficient are integers.
-/

namespace WeightedKripke

open Decimal

namespace Quantity

/-! ## Taking text apart -/

/--
The word that a run of digits stands for, unless it is too large or no run of digits.

No sign is read: the text of a positive double has none.
-/
def word? (digits : List Char) : Option UInt64 :=
  if h : (digits ≠ [] ∧ digits.all Char.isDigit) ∧ valueOf digits < 2 ^ 64 then
    some (UInt64.ofNatLT (valueOf digits) h.2)
  else
    none

/--
Convert the double `x` by its text.

Behind a single zero and a point the zeros are left out, since they are not digits of the
coefficient.
-/
def ofText (x : Binary64) (text : List Char) : Except QuantityError Quantity :=
  match splitAtPoint? text with
  | none =>
      match word? text with
      | some coefficient => ofWords coefficient 0
      | none => .error (.overflow (.double x))
  | some (whole, fraction) =>
      let digits := if whole = ['0'] then fraction.dropWhile (· == '0') else whole ++ fraction
      match word? digits with
      | some coefficient => ofWords coefficient (Int64.ofInt (-fraction.length))
      | none => .error (.overflow (.double x))

variable {digits text whole fraction : List Char} {x : Binary64} {q : Quantity}

theorem word?_of_lt (hne : digits ≠ []) (hdigits : ∀ c, c ∈ digits → c.isDigit = true)
    (h : valueOf digits < 2 ^ 64) : word? digits = some (UInt64.ofNatLT (valueOf digits) h) :=
  dif_pos ⟨⟨hne, List.all_eq_true.2 hdigits⟩, h⟩

theorem word?_of_ge (h : 2 ^ 64 ≤ valueOf digits) : word? digits = none :=
  dif_neg fun hword => Nat.not_lt.2 h hword.2

theorem word?_dropWhile_zeros (hne : digits ≠ [])
    (hdigits : ∀ c, c ∈ digits → c.isDigit = true) (hending : digits.getLast? ≠ some '0') :
    word? (digits.dropWhile (· == '0')) = word? ('0' :: digits) := by
  have hvalue := valueOf_dropWhile_zeros digits
  have hzero : valueOf ('0' :: digits) = valueOf digits := rfl
  have hdropped : digits.dropWhile (· == '0') ≠ [] := by
    rw [Ne, List.dropWhile_eq_nil_iff]
    intro hall
    refine hending ?_
    rw [List.getLast?_eq_some_getLast hne]
    exact congrArg some (beq_iff_eq.1 (hall _ (List.getLast_mem hne)))
  have hsub : ∀ c, c ∈ digits.dropWhile (· == '0') → c.isDigit = true :=
    fun c hc => hdigits c ((List.dropWhile_sublist _).subset hc)
  have hcons : ∀ c, c ∈ '0' :: digits → c.isDigit = true := by
    intro c hc
    rcases List.mem_cons.1 hc with rfl | hc
    · rfl
    · exact hdigits c hc
  rcases Nat.lt_or_ge (valueOf digits) (2 ^ 64) with hlt | hge
  · rw [word?_of_lt hdropped hsub (by rwa [hvalue]),
      word?_of_lt (List.cons_ne_nil _ _) hcons (by rwa [hzero])]
    simp only [hvalue, hzero]
  · rw [word?_of_ge (by rwa [hvalue]), word?_of_ge (by rwa [hzero])]

/-- The coefficient is that of all digits, and every place behind the point counts. -/
theorem ofText_of_plain (h : PlainDecimal text whole fraction) :
    ofText x text =
      match word? (whole ++ fraction) with
      | some coefficient => ofWords coefficient (Int64.ofInt (-fraction.length))
      | none => .error (.overflow (.double x)) := by
  unfold ofText
  rw [h.splitAtPoint?_eq]
  by_cases hfraction : fraction = []
  · have htext : text = whole := by
      rw [h.text_eq, if_pos hfraction]
    rw [if_pos hfraction, htext, hfraction, List.append_nil]
    rfl
  · rw [if_neg hfraction]
    by_cases hwhole : whole = ['0']
    · have hword := word?_dropWhile_zeros hfraction h.fraction_digits h.ending
      simp only [if_pos hwhole, hword]
      rw [hwhole]
      rfl
    · simp only [if_neg hwhole]

/-! ## The value of a text -/

theorem digits_of_plain (h : PlainDecimal text whole fraction) :
    whole ++ fraction ≠ [] ∧ ∀ c, c ∈ whole ++ fraction → c.isDigit = true := by
  refine ⟨List.append_ne_nil_of_left_ne_nil h.whole_ne_nil fraction, ?_⟩
  intro c hc
  rcases List.mem_append.1 hc with hc | hc
  · exact h.whole_digits c hc
  · exact h.fraction_digits c hc

/-- An exponent that is not positive has room for the zeros of every coefficient. -/
theorem exists_ofParts {c : Nat} {e : Int} (hc : c < 2 ^ 64) (he : ExponentRange e)
    (hle : e ≤ 0) : ∃ q, ofParts c e hc he = .ok q := by
  unfold ofParts
  split
  · exact ⟨_, rfl⟩
  · rename_i hne
    have hzeros := zeros_lt hne hc (endsInZeros_trailingZeros hne)
    rw [dif_pos (by omega)]
    exact ⟨_, rfl⟩

theorem exists_ofText (h : PlainDecimal text whole fraction) (hlength : fraction.length < 2 ^ 63)
    (hfits : valueOf (whole ++ fraction) < 2 ^ 64) :
    ∃ q, ofText x text = .ok q ∧
      q.value = exact (valueOf (whole ++ fraction)) (-fraction.length) := by
  have hexponent : (Int64.ofInt (-fraction.length)).toInt = -fraction.length :=
    Int64.toInt_ofInt_of_le (by omega) (by omega)
  obtain ⟨hne, hdigits⟩ := digits_of_plain h
  obtain ⟨q, hq⟩ : ∃ q, ofWords (UInt64.ofNatLT (valueOf (whole ++ fraction)) hfits)
      (Int64.ofInt (-fraction.length)) = .ok q :=
    exists_ofParts _ _ (by omega)
  refine ⟨q, ?_, ?_⟩
  · rw [ofText_of_plain h, word?_of_lt hne hdigits hfits]
    exact hq
  · rw [value_of_ofWords hq, hexponent, UInt64.toNat_ofNatLT]

theorem ofText_of_large (h : PlainDecimal text whole fraction)
    (hlarge : 2 ^ 64 ≤ valueOf (whole ++ fraction)) :
    ofText x text = .error (.overflow (.double x)) := by
  rw [ofText_of_plain h, word?_of_ge hlarge]

/-! ## Texts of a double -/

variable {m n : Nat} {e f : Int}

/-- `text` is a plain decimal with at most seventeen significant digits, read as `m × 2 ^ e`. -/
structure Writes (text whole fraction : List Char) (m : Nat) (e : Int) : Prop where
  plain : PlainDecimal text whole fraction
  digits_le : digitCount (stripZeros (valueOf (whole ++ fraction))) ≤ 17
  readsAs : ReadsAs (exact (valueOf (whole ++ fraction)) (-fraction.length)) m e

theorem Writes.digits_lt (h : Writes text whole fraction m e) :
    stripZeros (valueOf (whole ++ fraction)) < 10 ^ 17 :=
  Nat.lt_of_lt_of_le (lt_pow_digitCount _) (Nat.pow_le_pow_right (by decide) h.digits_le)

/-- A text with a fraction ends in its last significant digit, and so it has few digits. -/
theorem Writes.lt_of_fraction (h : Writes text whole fraction m e) (hfraction : fraction ≠ []) :
    valueOf (whole ++ fraction) < 10 ^ 17 := by
  have hlast : valueOf (whole ++ fraction) % 10 ≠ 0 := by
    have hc := h.plain.fraction_digits _ (List.getLast_mem hfraction)
    have hne : fraction.getLast hfraction ≠ '0' := fun hzero =>
      h.plain.ending ((List.getLast?_eq_some_getLast hfraction).trans (congrArg some hzero))
    have hlt := digitValue_lt hc
    have hpos := digitValue_ne_zero hc hne
    rw [← List.dropLast_append_getLast hfraction, ← List.append_assoc, valueOf_append_singleton]
    omega
  have hlt := h.digits_lt
  rwa [stripZeros_eq_self hlast] at hlt

theorem Writes.length_lt (h : Writes text whole fraction m e) (hm : Binary64.Canonical m e)
    (hne : m ≠ 0) : fraction.length < 1100 := by
  by_cases hfraction : fraction = []
  · rw [hfraction]
    decide
  · have hpower := h.readsAs.power_gt hm hne (h.lt_of_fraction hfraction)
    omega

/-- Only integers can be too large for a coefficient. -/
theorem Writes.fraction_eq_nil (h : Writes text whole fraction m e)
    (hlarge : 2 ^ 64 ≤ valueOf (whole ++ fraction)) : fraction = [] := by
  by_contra hfraction
  have hlt := h.lt_of_fraction hfraction
  omega

/-! ## The shortest text -/

variable {number : Nat} {power : Int}

theorem exists_writes (hm : Binary64.Canonical m e) (hne : m ≠ 0)
    (hs : shortest m e = (number, power)) :
    ∃ whole fraction, Writes (Binary64.finite false m e).text whole fraction m e ∧
      valueOf (whole ++ fraction) = number * 10 ^ power.toNat ∧
      fraction.length = (-power).toNat := by
  have hshortest := shortestDigits hm hne hs
  have htext : (Binary64.finite false m e).text = positionalText number power := by
    simp only [Binary64.text, Binary64.magnitudeText, hne, if_false, hs]
  obtain ⟨whole, fraction, hplain, hvalue, hlength⟩ :=
    plainDecimal_positionalText hshortest.last_digit power
  rw [← htext] at hplain
  refine ⟨whole, fraction, ⟨hplain, ?_, ?_⟩, hvalue, hlength⟩
  · rw [hvalue, stripZeros_mul_pow_of_mod_ne_zero hshortest.last_digit]
    exact digitCount_le hshortest.digits_lt (by decide)
  · rw [hvalue, hlength, exact_places]
    exact hshortest.readsAs

theorem value_of_shortest (hne : m ≠ 0) (hs : shortest m e = (number, power))
    (h : ofBinary64 (.finite false m e) = .ok q) : q.value = exact number power := by
  rw [value_of_ofBinary64 h]
  simp only [Binary64.decimalValue, hne, if_false, Bool.false_eq_true, hs]

theorem exists_ofBinary64 (hm : Binary64.Canonical m e) (hne : m ≠ 0)
    (hs : shortest m e = (number, power)) (hfits : number * 10 ^ power.toNat < 2 ^ 64) :
    ∃ q, ofBinary64 (.finite false m e) = .ok q ∧ q.value = exact number power := by
  have hshortest := shortestDigits hm hne hs
  have hpower := hshortest.readsAs.power_gt hm hne hshortest.digits_lt
  have hlt := hshortest.digits_lt
  have hok : ∃ q, ofBinary64 (.finite false m e) = .ok q := by
    simp only [ofBinary64, hne, if_false, Bool.false_eq_true, hs]
    split
    · exact ⟨_, rfl⟩
    -- With places behind the point the digits always fit, and so do the places.
    · rename_i hnegative
      rw [dif_pos ⟨by omega, by omega, by omega⟩]
      exact exists_ofParts _ _ (by omega)
  obtain ⟨q, hq⟩ := hok
  exact ⟨q, hq, value_of_shortest hne hs hq⟩

theorem ofBinary64_of_large (hm : Binary64.Canonical m e) (hne : m ≠ 0)
    (hs : shortest m e = (number, power)) (hlarge : 2 ^ 64 ≤ number * 10 ^ power.toNat) :
    ofBinary64 (.finite false m e) = .error (.overflow (.double (.finite false m e))) := by
  have hlt := (shortestDigits hm hne hs).digits_lt
  simp only [ofBinary64, hne, if_false, Bool.false_eq_true, hs]
  split
  · rw [dif_neg (Nat.not_lt.2 hlarge)]
  · rename_i hnegative
    rw [Int.toNat_of_nonpos (by omega), Nat.pow_zero, Nat.mul_one] at hlarge
    omega

theorem ofBinary64_eq_ofText (hm : Binary64.Canonical m e) (hne : m ≠ 0) :
    ofBinary64 (.finite false m e) =
      ofText (.finite false m e) (Binary64.finite false m e).text := by
  rcases hs : shortest m e with ⟨number, power⟩
  obtain ⟨whole, fraction, hwrites, hvalue, hlength⟩ := exists_writes hm hne hs
  -- Both give a quantity under the same condition, and quantities of one value are equal.
  rcases Nat.lt_or_ge (number * 10 ^ power.toNat) (2 ^ 64) with hfits | hlarge
  · obtain ⟨q, hq, hqvalue⟩ := exists_ofBinary64 hm hne hs hfits
    have hshort := hwrites.length_lt hm hne
    obtain ⟨p, hp, hpvalue⟩ := exists_ofText (x := .finite false m e) hwrites.plain (by omega)
      (by rwa [hvalue])
    rw [hvalue, hlength, exact_places, ← hqvalue] at hpvalue
    rw [hq, hp, value_injective hpvalue]
  · rw [ofBinary64_of_large hm hne hs hlarge, ofText_of_large hwrites.plain (by rwa [hvalue])]

/-! ## Conversions of doubles -/

/-- The quantity of a double is read as the double. -/
theorem readsAs_of_ofBinary64 (hm : Binary64.Canonical m e) (hne : m ≠ 0)
    (h : ofBinary64 (.finite false m e) = .ok q) : ReadsAs q.value m e := by
  rcases hs : shortest m e with ⟨number, power⟩
  rw [value_of_shortest hne hs h]
  exact (shortestDigits hm hne hs).readsAs

/--
A positive double is converted to the exact value of its text, or reported as too large.

Any text of the double would do: its digits fit a coefficient and give the quantity with the
value of the text, or they do not and the text is that of an integer.  The exponent is never
out of range, and larger doubles give larger quantities.
-/
theorem ofBinary64_exact {bits : UInt64} (hx : Binary64.ofBits bits = .finite false m e)
    (hne : m ≠ 0) :
    (∃ whole fraction, Writes (Binary64.ofBits bits).text whole fraction m e) ∧
    ofBinary64 (Binary64.ofBits bits) =
      ofText (Binary64.ofBits bits) (Binary64.ofBits bits).text ∧
    (∀ text whole fraction, Writes text whole fraction m e →
      (valueOf (whole ++ fraction) < 2 ^ 64 →
        ∃ q, ofText (Binary64.ofBits bits) text = .ok q ∧
          q.value = exact (valueOf (whole ++ fraction)) (-fraction.length)) ∧
      (2 ^ 64 ≤ valueOf (whole ++ fraction) →
        ofText (Binary64.ofBits bits) text =
          .error (.overflow (.double (Binary64.ofBits bits))) ∧ fraction = [])) ∧
    (∀ coefficient exponent,
      ofBinary64 (Binary64.ofBits bits) ≠ .error (.exponentOverflow coefficient exponent)) ∧
    (∀ (bits' : UInt64) (n : Nat) (f : Int) (q p : Quantity),
      Binary64.ofBits bits' = .finite false n f → binary m e < binary n f →
        ofBinary64 (Binary64.ofBits bits) = .ok q → ofBinary64 (Binary64.ofBits bits') = .ok p →
          compare q p = .lt) := by
  have hm := Binary64.canonical_of_ofBits hx
  rcases hs : shortest m e with ⟨number, power⟩
  obtain ⟨whole, fraction, hwrites, -⟩ := exists_writes hm hne hs
  rw [hx]
  refine ⟨⟨whole, fraction, hwrites⟩, ofBinary64_eq_ofText hm hne, ?_, ?_, ?_⟩
  · intro text whole fraction hwrites
    have hshort := hwrites.length_lt hm hne
    exact ⟨exists_ofText hwrites.plain (by omega),
      fun hlarge => ⟨ofText_of_large hwrites.plain hlarge, hwrites.fraction_eq_nil hlarge⟩⟩
  · intro coefficient exponent herror
    rcases Nat.lt_or_ge (number * 10 ^ power.toNat) (2 ^ 64) with hfits | hlarge
    · obtain ⟨q, hq, -⟩ := exists_ofBinary64 hm hne hs hfits
      rw [hq] at herror
      cases herror
    · rw [ofBinary64_of_large hm hne hs hlarge] at herror
      cases herror
  · intro bits' n f q p hy hlt hq hp
    rw [hy] at hp
    have hn := Binary64.canonical_of_ofBits hy
    -- A double that is larger than a positive one is not zero.
    have hnne : n ≠ 0 := by
      rintro rfl
      rw [binary_zero] at hlt
      exact (binary_pos hne e).not_gt hlt
    rw [compare_eq_lt_iff]
    exact (readsAs_of_ofBinary64 hm hne hq).lt (readsAs_of_ofBinary64 hn hnne hp) hm hn hlt

/--
A text with a point, and the two doubles around the largest coefficient: the lower one is
written as an integer that fits, the upper one as an integer that does not.
-/
theorem ofBinary64_exact_at_limits :
    (∃ q p, ofBinary64 (Binary64.ofBits 0x4029000000000000) = .ok q ∧
      q.value = exact 125 (-1) ∧
      ofBinary64 (Binary64.ofBits 0x43EFFFFFFFFFFFFF) = .ok p ∧
      p.value = exact 18446744073709550000 0 ∧ compare q p = .lt) ∧
    ofBinary64 (Binary64.ofBits 0x43F0000000000000) =
      .error (.overflow (.double (Binary64.ofBits 0x43F0000000000000))) := by
  obtain ⟨⟨_, _, hpoint⟩, hpointText, hpointAny, -, hless⟩ :=
    ofBinary64_exact (by decide : Binary64.ofBits 0x4029000000000000 =
      .finite false 7036874417766400 (-49)) (by decide)
  obtain ⟨⟨_, _, hlower⟩, hlowerText, hlowerAny, -⟩ :=
    ofBinary64_exact (by decide : Binary64.ofBits 0x43EFFFFFFFFFFFFF =
      .finite false (2 ^ 53 - 1) 11) (by decide)
  obtain ⟨⟨_, _, hupper⟩, hupperText, hupperAny, -⟩ :=
    ofBinary64_exact (by decide : Binary64.ofBits 0x43F0000000000000 =
      .finite false (2 ^ 52) 12) (by decide)
  obtain ⟨rfl, rfl⟩ := hpoint.plain.unique
    (⟨by decide, List.all_eq_true.1 (by decide), List.all_eq_true.1 (by decide), by decide,
      by decide, by decide⟩ : PlainDecimal _ ['1', '2'] ['5'])
  obtain ⟨rfl, rfl⟩ := hlower.plain.unique
    (⟨by decide, List.all_eq_true.1 (by decide), List.all_eq_true.1 (by decide), by decide,
      by decide, by decide⟩ : PlainDecimal _ "18446744073709550000".toList [])
  obtain ⟨rfl, rfl⟩ := hupper.plain.unique
    (⟨by decide, List.all_eq_true.1 (by decide), List.all_eq_true.1 (by decide), by decide,
      by decide, by decide⟩ : PlainDecimal _ "18446744073709552000".toList [])
  obtain ⟨q, hq, hqvalue⟩ := (hpointAny _ _ _ hpoint).1 (by decide)
  obtain ⟨p, hp, hpvalue⟩ := (hlowerAny _ _ _ hlower).1 (by decide)
  rw [← hpointText] at hq
  rw [← hlowerText] at hp
  refine ⟨⟨q, p, hq, hqvalue, hp, hpvalue, ?_⟩, ?_⟩
  · exact hless 0x43EFFFFFFFFFFFFF (2 ^ 53 - 1) 11 q p (by decide)
      (by unfold binary; norm_num) hq hp
  · rw [hupperText]
    exact ((hupperAny _ _ _ hupper).2 (by decide)).1

end Quantity

end WeightedKripke
