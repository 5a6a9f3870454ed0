import Mathlib.Data.List.Induction
import Mathlib.Data.List.TakeDrop
import WeightedKripke.Decimal.Digits

/-!
# Decimal text is read back

A number is written as a run of digits that starts with a zero only for zero
itself, and every such run is the text of its value.  So numbers with the same text
are equal, and `readDigits` takes the whole run off a text that goes on with something
else than a digit.
-/

namespace WeightedKripke

namespace Decimal

theorem natText_injective {m n : Nat} (h : natText m = natText n) : m = n := by
  have hvalue := congrArg valueOf h
  simpa using hvalue

theorem head?_natText_of_lt {n : Nat} (hn : n ≠ 0) (h : n < 10) :
    (natText n).head? ≠ some '0' := by
  have hall : ∀ d : Fin 10, d.val ≠ 0 → digitChar d.val ≠ '0' := by decide
  rw [natText_of_lt h]
  simpa using hall ⟨n, h⟩ hn

/-- Only zero is written with a leading zero. -/
theorem head?_natText {n : Nat} (hn : n ≠ 0) : (natText n).head? ≠ some '0' := by
  induction n using Nat.strongRecOn with
  | _ n ih =>
      by_cases h : n < 10
      · exact head?_natText_of_lt hn h
      · have hrec := ih (n / 10) (by omega) (by omega)
        obtain ⟨c, hhead⟩ :
            ∃ c, (natText (n / 10)).head? = some c :=
          ⟨_, List.head?_eq_some_head (natText_ne_nil (n / 10))⟩
        rw [natText_of_ge (Nat.le_of_not_lt h), List.head?_append, hhead]
        rwa [hhead] at hrec

theorem exists_natText_cons (n : Nat) :
    ∃ c digits, natText n = c :: digits ∧ c.isDigit = true := by
  cases h : natText n with
  | nil => exact absurd h (natText_ne_nil n)
  | cons c digits =>
      exact ⟨c, digits, rfl, isDigit_of_mem_natText (n := n) (by simp [h])⟩

/-- The run of digits ends where something else than a digit follows. -/
theorem readDigits_append {digits rest : List Char}
    (hdigits : ∀ c, c ∈ digits → c.isDigit = true)
    (hrest : ∀ c, rest.head? = some c → c.isDigit = false) :
    readDigits (digits ++ rest) = (digits, rest) := by
  have hstop : rest.takeWhile Char.isDigit = [] ∧ rest.dropWhile Char.isDigit = rest := by
    cases rest with
    | nil => simp
    | cons c rest => simp [hrest c rfl]
  rw [readDigits, List.span_eq_takeWhile_dropWhile,
    List.takeWhile_append_of_pos hdigits, List.dropWhile_append_of_pos hdigits, hstop.1,
    hstop.2, List.append_nil]

theorem readDigits_natText (n : Nat) {rest : List Char}
    (hrest : ∀ c, rest.head? = some c → c.isDigit = false) :
    readDigits (natText n ++ rest) = (natText n, rest) :=
  readDigits_append (fun _ hc => isDigit_of_mem_natText hc) hrest

/-- Texts that do not contain a separator are read up to it. -/
theorem append_cons_inj_of_notMem {c : Char} {first second rest more : List Char}
    (hfirst : c ∉ first) (hsecond : c ∉ second) (h : first ++ c :: rest = second ++ c :: more) :
    first = second ∧ rest = more := by
  induction first generalizing second with
  | nil =>
      cases second with
      | nil => exact ⟨rfl, (List.cons.inj h).2⟩
      | cons d second => exact absurd (List.mem_cons.2 (Or.inl (List.cons.inj h).1)) hsecond
  | cons d first ih =>
      cases second with
      | nil => exact absurd (List.mem_cons.2 (Or.inl (List.cons.inj h).1.symm)) hfirst
      | cons e second =>
          obtain ⟨hhead, htail⟩ := List.cons.inj h
          obtain ⟨hsame, hrest⟩ := ih (fun hmem => hfirst (List.mem_cons_of_mem _ hmem))
            (fun hmem => hsecond (List.mem_cons_of_mem _ hmem)) htail
          exact ⟨by rw [hhead, hsame], hrest⟩

theorem intText_injective {i j : Int} (h : intText i = intText j) : i = j := by
  have hminus : ∀ m n, '-' :: natText m ≠ natText n := by
    intro m n heq
    have hmem : '-' ∈ natText n := by simp [← heq]
    exact absurd (isDigit_of_mem_natText hmem) (by decide)
  unfold intText at h
  split at h <;> split at h
  · have habs := natText_injective (List.cons.inj h).2
    omega
  · exact absurd h (hminus _ _)
  · exact absurd h.symm (hminus _ _)
  · have habs := natText_injective h
    omega

/-! ## Runs of digits -/

theorem exists_digitChar {c : Char} (h : c.isDigit = true) :
    ∃ d, d < 10 ∧ c = digitChar d := by
  simp only [Char.isDigit, Bool.and_eq_true, decide_eq_true_eq, ge_iff_le,
    UInt32.le_iff_toNat_le] at h
  have hlower : 48 ≤ c.toNat := h.1
  have hupper : c.toNat ≤ 57 := h.2
  refine ⟨c.toNat - 48, by omega, ?_⟩
  rw [digitChar, Nat.add_sub_cancel' hlower, Char.ofNat_toNat]

theorem digitValue_lt {c : Char} (h : c.isDigit = true) : digitValue c < 10 := by
  obtain ⟨d, hd, rfl⟩ := exists_digitChar h
  rwa [digitValue_digitChar hd]

theorem digitValue_ne_zero {c : Char} (h : c.isDigit = true) (hc : c ≠ '0') :
    digitValue c ≠ 0 := by
  obtain ⟨d, hd, rfl⟩ := exists_digitChar h
  rw [digitValue_digitChar hd]
  rintro rfl
  exact hc rfl

theorem valueOf_append_zeros (digits : List Char) (zeros : Nat) :
    valueOf (digits ++ List.replicate zeros '0') = valueOf digits * 10 ^ zeros := by
  induction zeros with
  | zero => simp
  | succ zeros ih =>
      have hzero : digitValue '0' = 0 := rfl
      rw [List.replicate_succ', ← List.append_assoc, valueOf_append_singleton, ih, hzero,
        Nat.add_zero, Nat.mul_comm, Nat.mul_assoc, ← Nat.pow_succ]

/-- A run of digits without a leading zero is the text of its value. -/
theorem natText_valueOf {digits : List Char} (hdigits : ∀ c, c ∈ digits → c.isDigit = true)
    (hne : digits ≠ []) (hhead : digits.head? ≠ some '0') :
    natText (valueOf digits) = digits := by
  induction digits using List.reverseRecOn with
  | nil => exact absurd rfl hne
  | append_singleton start c ih =>
      obtain ⟨d, hd, rfl⟩ := exists_digitChar (hdigits c (by simp))
      rw [valueOf_append_singleton, digitValue_digitChar hd]
      by_cases hstart : start = []
      · subst hstart
        have hvalue : 10 * valueOf [] + d = d := by simp [valueOf]
        rw [hvalue, natText_of_lt hd, List.nil_append]
      · obtain ⟨first, hfirst⟩ : ∃ first, start.head? = some first :=
          ⟨_, List.head?_eq_some_head hstart⟩
        have hhead : start.head? ≠ some '0' := by
          rw [hfirst]
          rwa [List.head?_append, hfirst] at hhead
        have hrec := ih (fun e he => hdigits e (List.mem_append_left _ he)) hstart hhead
        have hpos : valueOf start ≠ 0 := by
          intro hzero
          rw [hzero, natText_of_lt (by decide)] at hrec
          exact hhead (by rw [← hrec]; rfl)
        have hdiv : (10 * valueOf start + d) / 10 = valueOf start := by omega
        have hmod : (10 * valueOf start + d) % 10 = d := by omega
        rw [natText_of_ge (by omega), hdiv, hmod, hrec]

end Decimal

end WeightedKripke
