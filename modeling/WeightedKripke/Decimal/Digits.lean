/-!
# Decimal text of integers

Natural numbers are written without leading zeros, integers with a leading
minus sign when negative.  `readDigits` takes the longest run of decimal digits
off a text and `valueOf` reads a run back, so that `valueOf (natText n) = n`.
`trailingZeros` and `stripZeros` describe the power of ten inside a number.
-/

namespace WeightedKripke

-- `x ^ n` is the core power of numbers in every module, also in those that import
-- the monoid powers of algebra.
attribute [instance (high)] instPowNat
attribute [default_instance 20000] instPowNat

namespace Decimal

def digitChar (d : Nat) : Char :=
  Char.ofNat (48 + d)

/-- The digit a character stands for; meaningful for `0` to `9` only. -/
def digitValue (c : Char) : Nat :=
  c.toNat - 48

def natTextFuel : Nat → Nat → List Char
  | 0, n => [digitChar (n % 10)]
  | fuel + 1, n =>
      if n < 10 then
        [digitChar n]
      else
        natTextFuel fuel (n / 10) ++ [digitChar (n % 10)]

def natText (n : Nat) : List Char :=
  natTextFuel n n

def intText (i : Int) : List Char :=
  if i < 0 then '-' :: natText i.natAbs else natText i.natAbs

/-- Number of decimal digits of `n`; zero has one digit. -/
def digitCount (n : Nat) : Nat :=
  (natText n).length

def valueOf (digits : List Char) : Nat :=
  digits.foldl (fun value c => 10 * value + digitValue c) 0

def readDigits (text : List Char) : List Char × List Char :=
  text.span Char.isDigit

def trailingZerosFuel : Nat → Nat → Nat
  | 0, _ => 0
  | fuel + 1, n =>
      if n % 10 = 0 then trailingZerosFuel fuel (n / 10) + 1 else 0

/-- Number of trailing decimal zeros; zero has none. -/
def trailingZeros (n : Nat) : Nat :=
  if n = 0 then 0 else trailingZerosFuel n n

def stripZeros (n : Nat) : Nat :=
  n / 10 ^ trailingZeros n

theorem natTextFuel_succ (fuel n : Nat) :
    natTextFuel (fuel + 1) n =
      if n < 10 then
        [digitChar n]
      else
        natTextFuel fuel (n / 10) ++ [digitChar (n % 10)] := by
  rfl

theorem natTextFuel_eq_of_le {n : Nat} :
    ∀ {fuel more : Nat}, n ≤ fuel → fuel ≤ more →
      natTextFuel more n = natTextFuel fuel n := by
  intro fuel
  induction fuel generalizing n with
  | zero =>
      intro more hfuel _
      have hn : n = 0 := by omega
      subst hn
      cases more <;> rfl
  | succ fuel ih =>
      intro more hfuel hmore
      cases more with
      | zero => omega
      | succ more =>
          rw [natTextFuel_succ, natTextFuel_succ]
          split
          · rfl
          · rw [ih (by omega) (by omega)]

theorem natText_of_lt {n : Nat} (h : n < 10) : natText n = [digitChar n] := by
  unfold natText
  cases n with
  | zero => rfl
  | succ n => rw [natTextFuel_succ, if_pos h]

theorem natText_of_ge {n : Nat} (h : 10 ≤ n) :
    natText n = natText (n / 10) ++ [digitChar (n % 10)] := by
  unfold natText
  cases n with
  | zero => omega
  | succ n =>
      rw [natTextFuel_succ, if_neg (by omega),
        natTextFuel_eq_of_le (Nat.le_refl ((n + 1) / 10)) (by omega)]

theorem natText_ne_nil (n : Nat) : natText n ≠ [] := by
  by_cases h : n < 10
  · simp [natText_of_lt h]
  · simp [natText_of_ge (Nat.le_of_not_lt h)]

theorem digitCount_pos (n : Nat) : 0 < digitCount n :=
  List.length_pos_iff.2 (natText_ne_nil n)

theorem digitCount_of_lt {n : Nat} (h : n < 10) : digitCount n = 1 := by
  simp [digitCount, natText_of_lt h]

theorem digitCount_of_ge {n : Nat} (h : 10 ≤ n) :
    digitCount n = digitCount (n / 10) + 1 := by
  simp [digitCount, natText_of_ge h]

theorem digitValue_digitChar {d : Nat} (h : d < 10) : digitValue (digitChar d) = d := by
  have hall : ∀ d : Fin 10, digitValue (digitChar d.val) = d.val := by decide
  exact hall ⟨d, h⟩

theorem isDigit_digitChar {d : Nat} (h : d < 10) : (digitChar d).isDigit = true := by
  have hall : ∀ d : Fin 10, (digitChar d.val).isDigit = true := by decide
  exact hall ⟨d, h⟩

theorem isDigit_of_mem_natText {n : Nat} {c : Char} (h : c ∈ natText n) :
    c.isDigit = true := by
  induction n using Nat.strongRecOn with
  | _ n ih =>
      by_cases hn : n < 10
      · rw [natText_of_lt hn, List.mem_singleton] at h
        exact h ▸ isDigit_digitChar hn
      · rw [natText_of_ge (Nat.le_of_not_lt hn), List.mem_append,
          List.mem_singleton] at h
        rcases h with h | h
        · exact ih (n / 10) (by omega) h
        · exact h ▸ isDigit_digitChar (Nat.mod_lt n (by decide))

theorem valueOf_append_singleton (digits : List Char) (c : Char) :
    valueOf (digits ++ [c]) = 10 * valueOf digits + digitValue c := by
  simp [valueOf, List.foldl_append]

@[simp] theorem valueOf_natText (n : Nat) : valueOf (natText n) = n := by
  induction n using Nat.strongRecOn with
  | _ n ih =>
      by_cases hn : n < 10
      · rw [natText_of_lt hn]
        simp [valueOf, digitValue_digitChar hn]
      · rw [natText_of_ge (Nat.le_of_not_lt hn), valueOf_append_singleton,
          ih (n / 10) (by omega), digitValue_digitChar (Nat.mod_lt n (by decide))]
        omega

theorem trailingZerosFuel_dvd :
    ∀ fuel n : Nat, 10 ^ trailingZerosFuel fuel n ∣ n := by
  intro fuel
  induction fuel with
  | zero => intro n; simp [trailingZerosFuel]
  | succ fuel ih =>
      intro n
      unfold trailingZerosFuel
      split
      · rename_i h
        rw [Nat.pow_succ]
        have := Nat.mul_dvd_mul (ih (n / 10)) (Nat.dvd_refl 10)
        rwa [Nat.div_mul_cancel (Nat.dvd_of_mod_eq_zero h)] at this
      · simp

/-- Stripping divides out exactly the power of ten counted by `trailingZeros`. -/
theorem stripZeros_mul_pow (n : Nat) : stripZeros n * 10 ^ trailingZeros n = n := by
  unfold stripZeros
  apply Nat.div_mul_cancel
  unfold trailingZeros
  split
  · simp
  · exact trailingZerosFuel_dvd n n

theorem stripZeros_le (n : Nat) : stripZeros n ≤ n :=
  Nat.div_le_self n _

theorem div_trailingZerosFuel_mod_ne_zero :
    ∀ {fuel n : Nat}, 0 < n → n ≤ fuel →
      n / 10 ^ trailingZerosFuel fuel n % 10 ≠ 0 := by
  intro fuel
  induction fuel with
  | zero => intro n hn hfuel; omega
  | succ fuel ih =>
      intro n hn hfuel
      unfold trailingZerosFuel
      split
      · rename_i h
        rw [Nat.pow_succ, Nat.mul_comm, ← Nat.div_div_eq_div_mul]
        exact ih (by omega) (by omega)
      · rename_i h
        simpa using h

theorem stripZeros_mod_ne_zero {n : Nat} (h : n ≠ 0) : stripZeros n % 10 ≠ 0 := by
  unfold stripZeros trailingZeros
  rw [if_neg h]
  exact div_trailingZerosFuel_mod_ne_zero (Nat.pos_of_ne_zero h) (Nat.le_refl n)

theorem pow_trailingZeros_le {n : Nat} (h : n ≠ 0) : 10 ^ trailingZeros n ≤ n := by
  have hmul := stripZeros_mul_pow n
  have hpos : 0 < stripZeros n := by
    apply Nat.pos_of_ne_zero
    intro hzero
    rw [hzero, Nat.zero_mul] at hmul
    exact h hmul.symm
  calc
    10 ^ trailingZeros n ≤ stripZeros n * 10 ^ trailingZeros n :=
      Nat.le_mul_of_pos_left _ hpos
    _ = n := hmul

theorem trailingZeros_lt {n k : Nat} (hn : n < 10 ^ k) (hk : 0 < k) :
    trailingZeros n < k := by
  by_cases h : n = 0
  · simpa [trailingZeros, h] using hk
  · exact (Nat.pow_lt_pow_iff_right (by decide)).1
      (Nat.lt_of_le_of_lt (pow_trailingZeros_le h) hn)

end Decimal

end WeightedKripke
