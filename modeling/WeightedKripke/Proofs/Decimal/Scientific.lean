import Mathlib.Data.List.TakeWhile
import WeightedKripke.Proofs.Decimal.Rounding
import WeightedKripke.Proofs.Decimal.Text
import WeightedKripke.Quantity.Basic

/-!
# Scientific notation shows the rounded value

The digits that are shown are those of the rounded coefficient without its trailing
zeros, and the power grows with the digits that rounding leaves, so the value of what is
shown is the rounded one.  A form without trailing zeros is determined by its value and
its text by the form; hence the text depends on the value alone.
-/

namespace WeightedKripke

namespace Decimal

theorem lt_digitCount {n k : Nat} (h : 10 ^ k ≤ n) : k < digitCount n :=
  (Nat.pow_lt_pow_iff_right (by decide)).1 (Nat.lt_of_le_of_lt h (lt_pow_digitCount n))

theorem digitCount_eq {n k : Nat} (hlower : 10 ^ k ≤ n) (hupper : n < 10 ^ (k + 1)) :
    digitCount n = k + 1 :=
  Nat.le_antisymm (digitCount_le hupper (Nat.succ_pos k)) (lt_digitCount hlower)

namespace Scientific

variable {coefficient : Nat}

/-! ## The rounded coefficient -/

def droppedDigits (coefficient : Nat) : Nat :=
  digitCount coefficient - shownDigits

theorem roundedDigits_of_short (h : digitCount coefficient ≤ 4) :
    roundedDigits coefficient = coefficient := by
  have hdropped : digitCount coefficient - shownDigits = 0 := by
    unfold shownDigits
    omega
  simp [roundedDigits, hdropped, divHalfEven, Nat.mod_one]

theorem nearestEven_roundedDigits (coefficient : Nat) :
    NearestEven ((coefficient : Rat) / (10 ^ droppedDigits coefficient : Nat))
      (roundedDigits coefficient) :=
  nearestEven_divHalfEven coefficient (Nat.pow_pos (by decide))

/-- Four digits are left, or the next power of ten. -/
theorem roundedDigits_of_long (h : 4 < digitCount coefficient) :
    10 ^ 3 ≤ roundedDigits coefficient ∧ roundedDigits coefficient ≤ 10 ^ 4 := by
  have hne : coefficient ≠ 0 := by
    rintro rfl
    rw [digitCount_of_lt (by decide)] at h
    omega
  have hpos : (0 : Rat) < (10 ^ droppedDigits coefficient : Nat) := by
    exact_mod_cast Nat.pow_pos (by decide)
  have hlower : 10 ^ 3 * 10 ^ droppedDigits coefficient ≤ coefficient := by
    have hcount : 3 + droppedDigits coefficient = digitCount coefficient - 1 := by
      unfold droppedDigits shownDigits
      omega
    rw [← Nat.pow_add, hcount]
    exact pow_digitCount_le hne
  have hupper : coefficient ≤ 10 ^ 4 * 10 ^ droppedDigits coefficient := by
    have hcount : 4 + droppedDigits coefficient = digitCount coefficient := by
      unfold droppedDigits shownDigits
      omega
    rw [← Nat.pow_add, hcount]
    exact (lt_pow_digitCount coefficient).le
  have hnearest := nearestEven_roundedDigits coefficient
  constructor
  · refine (nearestEven_natCast (10 ^ 3)).le hnearest ?_
    rw [le_div_iff₀ hpos]
    exact_mod_cast hlower
  · refine hnearest.le (nearestEven_natCast (10 ^ 4)) ?_
    rw [div_le_iff₀ hpos]
    exact_mod_cast hupper

theorem roundedDigits_ne_zero (hc : coefficient ≠ 0) : roundedDigits coefficient ≠ 0 := by
  by_cases h : digitCount coefficient ≤ 4
  · rwa [roundedDigits_of_short h]
  · have hbounds := roundedDigits_of_long (Nat.not_le.1 h)
    omega

theorem roundedDigits_eq_or_lt (coefficient : Nat) :
    roundedDigits coefficient = 10 ^ 4 ∨ digitCount (roundedDigits coefficient) ≤ 4 := by
  by_cases h : digitCount coefficient ≤ 4
  · rw [roundedDigits_of_short h]
    exact Or.inr h
  · have hbounds := roundedDigits_of_long (Nat.not_le.1 h)
    rcases Nat.eq_or_lt_of_le hbounds.2 with heq | hlt
    · exact Or.inl heq
    · exact Or.inr (digitCount_le hlt (by decide))

/-- The power is that of the leading digit of the rounded coefficient. -/
theorem power_ofScaled (coefficient : Nat) (exponent : Int) :
    (ofScaled coefficient exponent).power =
      exponent + droppedDigits coefficient + digitCount (roundedDigits coefficient) - 1 := by
  have hpower : (ofScaled coefficient exponent).power =
      if roundedDigits coefficient = 10 ^ 4 then
        exponent + digitCount coefficient - 1 + 1
      else
        exponent + digitCount coefficient - 1 := rfl
  rw [hpower]
  unfold droppedDigits shownDigits
  by_cases h : digitCount coefficient ≤ 4
  · have hlt : coefficient < 10 ^ 4 :=
      Nat.lt_of_lt_of_le (lt_pow_digitCount coefficient) (Nat.pow_le_pow_right (by decide) h)
    rw [roundedDigits_of_short h, if_neg (Nat.ne_of_lt hlt)]
    omega
  · obtain ⟨hlower, hupper⟩ := roundedDigits_of_long (Nat.not_le.1 h)
    by_cases hcarry : roundedDigits coefficient = 10 ^ 4
    -- The carry adds a digit to what is left, and one to the power.
    · have hcount : digitCount (10 ^ 4) = 5 := digitCount_eq (Nat.le_refl _) (by decide)
      rw [if_pos hcarry, hcarry, hcount]
      omega
    · have hcount := digitCount_eq hlower (Nat.lt_of_le_of_ne hupper hcarry)
      rw [if_neg hcarry, hcount]
      omega

/-! ## The digits that are shown -/

theorem exists_zeros (digits : List Char) :
    ∃ zeros, digits = dropTrailingZeros digits ++ List.replicate zeros '0' := by
  have hsplit := congrArg List.reverse
    (List.takeWhile_append_dropWhile (p := (· == '0')) (l := digits.reverse))
  have hzeros : ∀ c, c ∈ (digits.reverse.takeWhile (· == '0')).reverse → c = '0' := by
    intro c hc
    simpa using List.mem_takeWhile_imp (List.mem_reverse.1 hc)
  rw [List.reverse_append, List.reverse_reverse, List.eq_replicate_of_mem hzeros] at hsplit
  exact ⟨_, hsplit.symm⟩

theorem getLast?_dropTrailingZeros (digits : List Char) :
    (dropTrailingZeros digits).getLast? ≠ some '0' := by
  intro h
  rw [dropTrailingZeros, List.getLast?_reverse] at h
  have hstop := List.head?_dropWhile_not (· == '0') digits.reverse
  rw [h] at hstop
  exact absurd hstop (by decide)

/-- The rounded coefficient is written as the digits that are shown, with zeros behind them. -/
theorem exists_natText_roundedDigits (coefficient : Nat) (exponent : Int) :
    ∃ zeros, natText (roundedDigits coefficient) =
      ((ofScaled coefficient exponent).whole :: (ofScaled coefficient exponent).fraction) ++
        List.replicate zeros '0' := by
  obtain ⟨c, digits, htext, -⟩ := exists_natText_cons (roundedDigits coefficient)
  obtain ⟨zeros, hzeros⟩ := exists_zeros digits
  refine ⟨zeros, ?_⟩
  have hwhole : (ofScaled coefficient exponent).whole = c := by
    rw [ofScaled, htext]
    rfl
  have hfraction : (ofScaled coefficient exponent).fraction = dropTrailingZeros digits := by
    rw [ofScaled, htext]
    rfl
  rw [htext, hwhole, hfraction, List.cons_append, ← hzeros]

/-- One nonzero digit before the point, and at most three after it, the last not zero. -/
structure WellFormed (s : Scientific) : Prop where
  whole_digit : s.whole.isDigit = true
  whole_ne : s.whole ≠ '0'
  fraction_digit : ∀ c, c ∈ s.fraction → c.isDigit = true
  fraction_length : s.fraction.length ≤ 3
  fraction_last : s.fraction.getLast? ≠ some '0'

theorem wellFormed_ofScaled (hc : coefficient ≠ 0) (exponent : Int) :
    (ofScaled coefficient exponent).WellFormed := by
  obtain ⟨zeros, hdigits⟩ := exists_natText_roundedDigits coefficient exponent
  have hmem : ∀ c,
      c ∈ (ofScaled coefficient exponent).whole :: (ofScaled coefficient exponent).fraction →
        c.isDigit = true := by
    intro c hc
    refine isDigit_of_mem_natText (n := roundedDigits coefficient) ?_
    rw [hdigits]
    exact List.mem_append_left _ hc
  have hhead := head?_natText (roundedDigits_ne_zero hc)
  rw [hdigits, List.cons_append, List.head?_cons] at hhead
  exact {
    whole_digit := hmem _ List.mem_cons_self
    whole_ne := fun heq => hhead (congrArg some heq)
    fraction_digit := fun c hc => hmem c (List.mem_cons_of_mem _ hc)
    fraction_length := by
      rcases roundedDigits_eq_or_lt coefficient with hcarry | hcount
      · have hnone : dropTrailingZeros (natText (10 ^ 4)).tail = [] := by decide
        have hfraction : (ofScaled coefficient exponent).fraction =
            dropTrailingZeros (natText (roundedDigits coefficient)).tail := rfl
        rw [hfraction, hcarry, hnone]
        exact Nat.zero_le 3
      · rw [digitCount, hdigits, List.length_append, List.length_cons] at hcount
        omega
    fraction_last := getLast?_dropTrailingZeros _ }

/-! ## The value that is shown -/

def mantissa (s : Scientific) : Rat :=
  (valueOf (s.whole :: s.fraction) : Rat) / (10 : Rat) ^ s.fraction.length

def value (s : Scientific) : Rat :=
  s.mantissa * (10 : Rat) ^ s.power

theorem value_eq_exact (s : Scientific) :
    s.value = exact (valueOf (s.whole :: s.fraction)) (s.power - s.fraction.length) := by
  unfold value mantissa exact
  rw [zpow_sub₀ (by norm_num), zpow_natCast]
  ring

theorem value_ofScaled (coefficient : Nat) (exponent : Int) :
    (ofScaled coefficient exponent).value =
      exact (roundedDigits coefficient) (exponent + droppedDigits coefficient) := by
  obtain ⟨zeros, hdigits⟩ := exists_natText_roundedDigits coefficient exponent
  have hpower := power_ofScaled coefficient exponent
  have hvalue := congrArg valueOf hdigits
  rw [digitCount, hdigits, List.length_append, List.length_cons, List.length_replicate] at hpower
  rw [valueOf_natText, valueOf_append_zeros] at hvalue
  rw [value_eq_exact, hvalue, exact_mul_pow]
  congr 1
  omega

theorem roundsTo_ofScaled (hc : coefficient ≠ 0) (exponent : Int) :
    RoundsTo (exact coefficient exponent) (ofScaled coefficient exponent).value := by
  have hlower := zpow_le_exact hc exponent
  have hupper : exact coefficient exponent <
      (10 : Rat) ^ (exponent + digitCount coefficient - 1 + 1) := by
    rw [Int.sub_add_cancel]
    exact exact_lt_zpow coefficient exponent
  rw [value_ofScaled]
  by_cases h : digitCount coefficient ≤ 4
  -- A short coefficient lies on the grid once it is padded to four digits.
  · have hgrid : exact coefficient exponent =
        exact (coefficient * 10 ^ (4 - digitCount coefficient))
          (exponent + digitCount coefficient - 1 - 3) := by
      rw [exact_mul_pow]
      congr 1
      omega
    have hdropped : exponent + droppedDigits coefficient = exponent := by
      unfold droppedDigits shownDigits
      omega
    refine ⟨exponent + digitCount coefficient - 1, coefficient * 10 ^ (4 - digitCount coefficient),
      hlower, hupper, ?_, ?_⟩
    · rw [hgrid, exact_div_zpow]
      exact nearestEven_natCast _
    · rw [roundedDigits_of_short h, hdropped, hgrid]
  · have hgrid : exponent + digitCount coefficient - 1 - 3 =
        exponent + droppedDigits coefficient := by
      unfold droppedDigits shownDigits
      omega
    refine ⟨exponent + digitCount coefficient - 1, roundedDigits coefficient, hlower, hupper, ?_,
      by rw [hgrid]⟩
    rw [hgrid, exact_div_zpow_add]
    exact nearestEven_roundedDigits coefficient

/-! ## Forms are determined by their values -/

theorem WellFormed.valueOf_mod_ne_zero {s : Scientific} (h : s.WellFormed) :
    valueOf (s.whole :: s.fraction) % 10 ≠ 0 := by
  obtain ⟨start, last, hdigits, hlast, hne⟩ : ∃ start last,
      s.whole :: s.fraction = start ++ [last] ∧ last.isDigit = true ∧ last ≠ '0' := by
    rcases List.eq_nil_or_concat s.fraction with hnil | ⟨start, last, hfraction⟩
    · exact ⟨[], s.whole, by rw [hnil, List.nil_append], h.whole_digit, h.whole_ne⟩
    · have hlast := h.fraction_last
      rw [hfraction, List.concat_eq_append, List.getLast?_concat] at hlast
      exact ⟨s.whole :: start, last, by rw [hfraction, List.concat_eq_append, List.cons_append],
        h.fraction_digit last (by simp [hfraction]), fun heq => hlast (congrArg some heq)⟩
  have hlt := digitValue_lt hlast
  have hpos := digitValue_ne_zero hlast hne
  rw [hdigits, valueOf_append_singleton]
  omega

theorem WellFormed.natText_valueOf {s : Scientific} (h : s.WellFormed) :
    natText (valueOf (s.whole :: s.fraction)) = s.whole :: s.fraction := by
  refine Decimal.natText_valueOf ?_ (by simp) fun heq => h.whole_ne (Option.some.inj heq)
  intro c hc
  rcases List.mem_cons.1 hc with rfl | hc
  · exact h.whole_digit
  · exact h.fraction_digit c hc

theorem WellFormed.eq_of_value_eq {s t : Scientific} (hs : s.WellFormed) (ht : t.WellFormed)
    (h : s.value = t.value) : s = t := by
  rw [value_eq_exact, value_eq_exact] at h
  obtain ⟨hvalue, hpower⟩ := exact_injective hs.valueOf_mod_ne_zero ht.valueOf_mod_ne_zero h
  have hdigits : s.whole :: s.fraction = t.whole :: t.fraction := by
    rw [← hs.natText_valueOf, hvalue, ht.natText_valueOf]
  obtain ⟨hwhole, hfraction⟩ := List.cons.inj hdigits
  rw [hfraction] at hpower
  cases s
  cases t
  simp_all

/-! ## Forms are determined by their text -/

def pointed : List Char → List Char
  | [] => []
  | c :: rest => '.' :: c :: rest

theorem text_eq (s : Scientific) :
    s.text = s.whole ::
      (pointed s.fraction ++ '×' :: '1' :: '0' :: (intText s.power).map superscript) := by
  unfold text
  cases s.fraction <;> rfl

theorem pointed_injective {fraction other : List Char} (h : pointed fraction = pointed other) :
    fraction = other := by
  cases fraction <;> cases other <;> simp_all [pointed]

theorem times_notMem_pointed {fraction : List Char}
    (h : ∀ c, c ∈ fraction → c.isDigit = true) : '×' ∉ pointed fraction := by
  intro hmem
  have hdigit : '×' ∈ fraction := by
    cases fraction with
    | nil => cases hmem
    | cons c rest => exact List.mem_of_ne_of_mem (by decide) hmem
  exact absurd (h _ hdigit) (by decide)

def IsIntChar (c : Char) : Prop :=
  c = '-' ∨ c.isDigit = true

theorem isIntChar_of_mem_intText {i : Int} {c : Char} (h : c ∈ intText i) : IsIntChar c := by
  unfold intText at h
  split at h
  · rcases List.mem_cons.1 h with hsign | hdigit
    · exact Or.inl hsign
    · exact Or.inr (isDigit_of_mem_natText hdigit)
  · exact Or.inr (isDigit_of_mem_natText h)

theorem superscript_inj {c d : Char} (hc : IsIntChar c) (hd : IsIntChar d)
    (h : superscript c = superscript d) : c = d := by
  have hdigits : ∀ m n : Fin 10,
      superscript (digitChar m.val) = superscript (digitChar n.val) → m = n := by decide
  have hsign : ∀ n : Fin 10, superscript '-' ≠ superscript (digitChar n.val) := by decide
  rcases hc with rfl | hc <;> rcases hd with rfl | hd
  · rfl
  · obtain ⟨n, hn, rfl⟩ := exists_digitChar hd
    exact absurd h (hsign ⟨n, hn⟩)
  · obtain ⟨m, hm, rfl⟩ := exists_digitChar hc
    exact absurd h.symm (hsign ⟨m, hm⟩)
  · obtain ⟨m, hm, rfl⟩ := exists_digitChar hc
    obtain ⟨n, hn, rfl⟩ := exists_digitChar hd
    exact congrArg (fun i : Fin 10 => digitChar i.val) (hdigits ⟨m, hm⟩ ⟨n, hn⟩ h)

theorem map_superscript_inj {first second : List Char} (hfirst : ∀ c, c ∈ first → IsIntChar c)
    (hsecond : ∀ c, c ∈ second → IsIntChar c)
    (h : first.map superscript = second.map superscript) : first = second := by
  induction first generalizing second with
  | nil => exact (List.map_eq_nil_iff.1 h.symm).symm
  | cons c first ih =>
      cases second with
      | nil => cases h
      | cons d second =>
          rw [List.map_cons, List.map_cons, List.cons.injEq] at h
          obtain ⟨hfirst, hmore⟩ := List.forall_mem_cons.1 hfirst
          obtain ⟨hsecond, hothers⟩ := List.forall_mem_cons.1 hsecond
          rw [superscript_inj hfirst hsecond h.1, ih hmore hothers h.2]

/-- `text` is a digit, a fraction, and a power of ten in superscript, as `form` gives them. -/
structure Shows (text : List Char) (form : Scientific) : Prop where
  wellFormed : form.WellFormed
  text_eq : text = form.whole ::
    (pointed form.fraction ++ '×' :: '1' :: '0' :: (intText form.power).map superscript)

theorem Shows.unique {text : List Char} {s t : Scientific} (hs : Shows text s)
    (ht : Shows text t) : s = t := by
  obtain ⟨hwhole, hrest⟩ := List.cons.inj (hs.text_eq.symm.trans ht.text_eq)
  obtain ⟨hfraction, hpower⟩ := append_cons_inj_of_notMem
    (times_notMem_pointed hs.wellFormed.fraction_digit)
    (times_notMem_pointed ht.wellFormed.fraction_digit) hrest
  simp only [List.cons.injEq, true_and] at hpower
  have hpower := intText_injective (map_superscript_inj
    (fun _ => isIntChar_of_mem_intText) (fun _ => isIntChar_of_mem_intText) hpower)
  have hfraction := pointed_injective hfraction
  cases s
  cases t
  simp_all

/-! ## The same form, computed in words -/

/-- The leading digits of a coefficient, rounded at half of the divisor. -/
def keptDigits (coefficient : Nat) : Nat :=
  let divisor := 10 ^ droppedDigits coefficient
  let quotient := coefficient / divisor
  let remainder := coefficient % divisor
  if 0 < droppedDigits coefficient ∧
      (divisor / 2 < remainder ∨ (remainder = divisor / 2 ∧ quotient % 2 = 1)) then
    quotient + 1
  else
    quotient

/--
The rounded form as it is computed in words.

A number that rounding made longer loses its last digit, which is a zero.
-/
def inWords (coefficient : Nat) (exponent : Int) : Scientific :=
  let keptLength := min (digitCount coefficient) shownDigits
  let power := exponent + digitCount coefficient - 1
  let digits := natText (keptDigits coefficient)
  { whole := (digits.take keptLength).headD '0'
    fraction := dropTrailingZeros (digits.take keptLength).tail
    power := if keptLength < digits.length then power + 1 else power }

theorem divHalfEven_two_mul (n half : Nat) :
    divHalfEven n (2 * half) =
      if half < n % (2 * half) ∨ (n % (2 * half) = half ∧ n / (2 * half) % 2 = 1) then
        n / (2 * half) + 1
      else
        n / (2 * half) := by
  have hlt : 2 * half < 2 * (n % (2 * half)) ↔ half < n % (2 * half) := by omega
  have heq : 2 * (n % (2 * half)) = 2 * half ↔ n % (2 * half) = half := by omega
  simp only [divHalfEven, hlt, heq]

theorem keptDigits_eq (coefficient : Nat) : keptDigits coefficient = roundedDigits coefficient := by
  unfold keptDigits
  dsimp only
  cases hdropped : droppedDigits coefficient with
  | zero =>
      have hcount : digitCount coefficient ≤ 4 := by
        unfold droppedDigits shownDigits at hdropped
        omega
      simp [roundedDigits_of_short hcount]
  | succ dropped =>
      have hdivisor : 10 ^ (dropped + 1) = 2 * (5 * 10 ^ dropped) := by
        rw [Nat.pow_succ]
        omega
      have hrounded : roundedDigits coefficient = divHalfEven coefficient (10 ^ (dropped + 1)) := by
        rw [← hdropped]
        rfl
      rw [hrounded, hdivisor, divHalfEven_two_mul, Nat.mul_div_cancel_left _ Nat.two_pos]
      simp

theorem ofScaled_eq_inWords (coefficient : Nat) (exponent : Int) :
    ofScaled coefficient exponent = inWords coefficient exponent := by
  unfold ofScaled inWords leadingPower
  dsimp only
  rw [keptDigits_eq]
  by_cases h : digitCount coefficient ≤ 4
  · have hne : coefficient ≠ 10 ^ shownDigits :=
      Nat.ne_of_lt (Nat.lt_of_lt_of_le (lt_pow_digitCount coefficient)
        (Nat.pow_le_pow_right (by decide) h))
    have hlength : min (digitCount coefficient) shownDigits = (natText coefficient).length :=
      Nat.min_eq_left h
    simp [roundedDigits_of_short h, hne, hlength]
  · have hlength : min (digitCount coefficient) shownDigits = 4 :=
      Nat.min_eq_right (Nat.le_of_not_le h)
    obtain ⟨hlower, hupper⟩ := roundedDigits_of_long (Nat.not_le.1 h)
    rw [hlength]
    by_cases hcarry : roundedDigits coefficient = 10 ^ shownDigits
    · have hdigits : natText (10 ^ shownDigits) = ['1', '0', '0', '0', '0'] := by decide +kernel
      rw [if_pos hcarry, hcarry, hdigits]
      rfl
    · have hcount := digitCount_eq hlower (Nat.lt_of_le_of_ne hupper hcarry)
      have hfour : (natText (roundedDigits coefficient)).length = 4 := hcount
      rw [if_neg hcarry, hfour, if_neg (Nat.lt_irrefl 4), List.take_of_length_le hfour.le]

end Scientific

open Scientific

theorem scientificText_of_ne_zero {coefficient : Nat} (hc : coefficient ≠ 0) (exponent : Int) :
    scientificText coefficient exponent = (ofScaled coefficient exponent).text :=
  if_neg hc

theorem shows_scientificText {coefficient : Nat} (hc : coefficient ≠ 0) (exponent : Int) :
    Shows (scientificText coefficient exponent) (ofScaled coefficient exponent) where
  wellFormed := wellFormed_ofScaled hc exponent
  text_eq := by rw [scientificText_of_ne_zero hc, Scientific.text_eq]

theorem scientificText_eq_of_exact_eq {a b : Nat} {e f : Int} (ha : a ≠ 0)
    (h : exact a e = exact b f) : scientificText a e = scientificText b f := by
  have hb : b ≠ 0 := by
    rintro rfl
    rw [exact_zero, exact_eq_zero_iff] at h
    exact ha h
  have hround := roundsTo_ofScaled ha e
  rw [h] at hround
  have hform := (wellFormed_ofScaled ha e).eq_of_value_eq (wellFormed_ofScaled hb f)
    (hround.unique (roundsTo_ofScaled hb f))
  rw [scientificText_of_ne_zero ha, scientificText_of_ne_zero hb, hform]

/-! ## Words are wide enough -/

/-- Every number on the way to scientific notation fits its word of 128 bits. -/
structure FitsScientific (coefficient : Nat) (exponent : Int) : Prop where
  count : digitCount coefficient ≤ 39
  divisor : 10 ^ droppedDigits coefficient < 2 ^ 128
  quotient : coefficient / 10 ^ droppedDigits coefficient + 1 < 2 ^ 128
  lower : -2 ^ 127 ≤ exponent
  sum : exponent + digitCount coefficient < 2 ^ 127
  power : -2 ^ 127 ≤ leadingPower coefficient exponent
  carry : leadingPower coefficient exponent + 1 < 2 ^ 127

theorem fitsScientific {coefficient : Nat} {exponent : Int} (hlt : coefficient < 2 ^ 128)
    (hrange : ExponentRange exponent) : FitsScientific coefficient exponent := by
  have hcount : digitCount coefficient ≤ 39 :=
    digitCount_le (Nat.lt_trans hlt (by decide)) (by decide)
  have hpos := digitCount_pos coefficient
  have hdivisor : 10 ^ droppedDigits coefficient ≤ 10 ^ 35 := by
    refine Nat.pow_le_pow_right (by decide) ?_
    unfold droppedDigits shownDigits
    omega
  obtain ⟨hlower, hupper⟩ := hrange
  exact {
    count := hcount
    divisor := Nat.lt_of_le_of_lt hdivisor (by decide)
    quotient := by
      have hquotient : coefficient / 10 ^ droppedDigits coefficient < 10 ^ 4 := by
        refine Nat.div_lt_of_lt_mul (Nat.lt_of_lt_of_le (lt_pow_digitCount coefficient) ?_)
        rw [← Nat.pow_add]
        refine Nat.pow_le_pow_right (by decide) ?_
        unfold droppedDigits shownDigits
        omega
      exact Nat.lt_of_le_of_lt hquotient (by decide)
    lower := by omega
    sum := by omega
    power := by
      unfold leadingPower
      omega
    carry := by
      unfold leadingPower
      omega }

/-! ## The shown number -/

/--
Scientific notation shows the exact value rounded to four significant digits.

So the shown numbers are in the order of the exact values, and the text does not depend
on how many zeros the coefficient carries.  The numbers that are computed for it in words
fit them.
-/
theorem scientificText_rounds {coefficient : Nat} {exponent : Int} (hc : coefficient ≠ 0)
    (hlt : coefficient < 2 ^ 128) (hrange : ExponentRange exponent) :
    (∃ form, Shows (scientificText coefficient exponent) form ∧
      RoundsTo (exact coefficient exponent) form.value) ∧
    (∀ {other : Nat} {power : Int} {form larger : Scientific}, other ≠ 0 →
      Shows (scientificText coefficient exponent) form →
      Shows (scientificText other power) larger →
      exact coefficient exponent ≤ exact other power → form.value ≤ larger.value) ∧
    (∀ k : Nat, scientificText (coefficient * 10 ^ k) (exponent - k) =
      scientificText coefficient exponent) ∧
    scientificText coefficient exponent = (inWords coefficient exponent).text ∧
    FitsScientific coefficient exponent := by
  have hshows := shows_scientificText hc exponent
  have hrounds := roundsTo_ofScaled hc exponent
  refine ⟨⟨_, hshows, hrounds⟩, ?_, ?_, ?_, fitsScientific hlt hrange⟩
  · intro other power form larger hother hform hlarger hle
    rw [hform.unique hshows, hlarger.unique (shows_scientificText hother power)]
    exact hrounds.le (roundsTo_ofScaled hother power) hle
  · intro k
    refine (scientificText_eq_of_exact_eq hc ?_).symm
    rw [exact_mul_pow, Int.sub_add_cancel]
  · rw [scientificText_of_ne_zero hc, ofScaled_eq_inWords]

/-- The largest coefficient at the largest exponent is rounded up. -/
theorem scientificText_rounds_largest :
    scientificText (2 ^ 128 - 1) (2 ^ 63 - 1) =
      "3.403×10⁹²²³³⁷²⁰³⁶⁸⁵⁴⁷⁷⁵⁸⁴⁵".toList ∧
    (∃ form, Shows (scientificText (2 ^ 128 - 1) (2 ^ 63 - 1)) form ∧
      RoundsTo (exact (2 ^ 128 - 1) (2 ^ 63 - 1)) form.value) ∧
    FitsScientific (2 ^ 128 - 1) (2 ^ 63 - 1) :=
  have hrounds := @scientificText_rounds (2 ^ 128 - 1) (2 ^ 63 - 1) (by decide) (by decide)
    (by decide)
  ⟨by decide +kernel, hrounds.1, hrounds.2.2.2.2⟩

example : scientificText 99995 (-2) = "1×10³".toList := by decide +kernel

example : scientificText 99985 (-2) = "9.998×10²".toList := by decide +kernel

end Decimal

end WeightedKripke
