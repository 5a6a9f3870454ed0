import WeightedKripke.Proofs.Decimal.Scientific
import WeightedKripke.Proofs.Quantity.Value
import WeightedKripke.Quantity.Units

/-!
# Labels in metric units

Rescaling keeps the value of a quantity, so the number in front of a unit is exact and
the text without a unit is that of the quantity.  What a unit stands for is read off its
metric prefix, not off the list of units: a label with a unit then names one value, and
the times sign tells it from a label without one.
-/

namespace WeightedKripke

open Decimal

/-! ## Rescaling -/

namespace Quantity

theorem rescale_of_le {q : Quantity} (h : -2 ^ 63 ≤ q.exponent - q.exponent % 3) :
    q.rescale.coefficient = q.coefficient * 10 ^ (q.exponent % 3).toNat ∧
      q.rescale.exponent = q.exponent - q.exponent % 3 := by
  unfold rescale
  simp only [dif_pos h, and_self]

theorem rescale_of_lt {q : Quantity} (h : q.exponent - q.exponent % 3 < -2 ^ 63) :
    q.rescale = q.scaled :=
  dif_neg (Int.not_le.2 h)

theorem exact_rescale (q : Quantity) :
    exact q.rescale.coefficient q.rescale.exponent = q.value := by
  by_cases h : -2 ^ 63 ≤ q.exponent - q.exponent % 3
  · have hshift : q.exponent - q.exponent % 3 + (q.exponent % 3).toNat = q.exponent := by omega
    rw [(rescale_of_le h).1, (rescale_of_le h).2, exact_mul_pow, hshift]
    rfl
  · rw [rescale_of_lt (Int.not_le.1 h)]
    rfl

/-- Scientific notation of a rescaled quantity is that of the quantity. -/
theorem scientificText_rescale (q : Quantity) :
    scientificText q.rescale.coefficient q.rescale.exponent = q.text := by
  by_cases h : q.coefficient = 0
  · have hrescale : q.rescale.coefficient = 0 := by
      rw [← exact_eq_zero_iff, exact_rescale, value_of_coefficient_eq_zero h]
    rw [text, hrescale, h]
    rfl
  · exact (scientificText_eq_of_exact_eq h (exact_rescale q).symm).symm

end Quantity

/-! ## Units -/

namespace UnitFamily

def prefixPower? : Char → Option Int
  | 'T' => some 12
  | 'G' => some 9
  | 'M' => some 6
  | 'k' => some 3
  | 'm' => some (-3)
  | 'μ' => some (-6)
  | 'n' => some (-9)
  | 'p' => some (-12)
  | 'f' => some (-15)
  | _ => none

/-- The power of ten that a unit stands for: the base, or the base behind a metric prefix. -/
def unitPower? (family : UnitFamily) : List Char → Option Int
  | [] => none
  | c :: rest =>
      if c :: rest = family.base.toList then
        some 0
      else if rest = family.base.toList then
        prefixPower? c
      else
        none

/-- The family lists the units for the multiples of three from `low` to `high`, and no others. -/
structure Covers (family : UnitFamily) (low high : Int) : Prop where
  range : -2 ^ 63 ≤ low ∧ low ≤ 0 ∧ 0 ≤ high
  multiple : low % 3 = 0 ∧ high % 3 = 0
  times_notMem : '×' ∉ family.base.toList
  exists_unit : ∀ exponent, exponent % 3 = 0 → low ≤ exponent → exponent ≤ high →
    ∃ unit, family.unit? exponent = some unit
  listed : ∀ entry, entry ∈ family.units →
    low ≤ entry.1 ∧ entry.1 ≤ high ∧ family.unitPower? entry.2.toList = some entry.1

theorem covers_time : time.Covers (-15) 0 where
  range := by decide
  multiple := by decide
  times_notMem := by decide
  exists_unit exponent hmultiple hlow hhigh := by
    obtain rfl | rfl | rfl | rfl | rfl | rfl : exponent = -15 ∨ exponent = -12 ∨
        exponent = -9 ∨ exponent = -6 ∨ exponent = -3 ∨ exponent = 0 := by omega
    all_goals exact ⟨_, rfl⟩
  listed := by decide

theorem covers_energy : energy.Covers (-15) 12 where
  range := by decide
  multiple := by decide
  times_notMem := by decide
  exists_unit exponent hmultiple hlow hhigh := by
    obtain rfl | rfl | rfl | rfl | rfl | rfl | rfl | rfl | rfl | rfl : exponent = -15 ∨
        exponent = -12 ∨ exponent = -9 ∨ exponent = -6 ∨ exponent = -3 ∨ exponent = 0 ∨
        exponent = 3 ∨ exponent = 6 ∨ exponent = 9 ∨ exponent = 12 := by omega
    all_goals exact ⟨_, rfl⟩
  listed := by decide

variable {family : UnitFamily} {low high : Int}

theorem Covers.of_unit? (h : family.Covers low high) {exponent : Int} {unit : String}
    (hunit : family.unit? exponent = some unit) :
    low ≤ exponent ∧ exponent ≤ high ∧ family.unitPower? unit.toList = some exponent := by
  obtain ⟨before, after, hentries, -⟩ := List.lookup_eq_some_iff.1 hunit
  exact h.listed (exponent, unit) (by simp [hentries])

theorem times_notMem_unit {unit : List Char} {power : Int}
    (hbase : '×' ∉ family.base.toList) (h : family.unitPower? unit = some power) :
    '×' ∉ unit := by
  intro hmem
  cases unit with
  | nil => cases hmem
  | cons c rest =>
      simp only [unitPower?] at h
      split at h
      · rename_i hunit
        exact hbase (hunit ▸ hmem)
      · split at h
        · rename_i hrest
          rcases List.mem_cons.1 hmem with rfl | hmem
          · cases h
          · exact hbase (hrest ▸ hmem)
        · cases h

/-! ## Labels with a unit -/

/-- The label is an integer and a unit, and together they are the value. -/
def Names (family : UnitFamily) (label : List Char) (value : Rat) : Prop :=
  ∃ (n : Nat) (power : Int) (unit : List Char),
    label = natText n ++ ' ' :: unit ∧ family.unitPower? unit = some power ∧
      exact n power = value

theorem Names.unique {label : List Char} {x y : Rat} (hx : family.Names label x)
    (hy : family.Names label y) : x = y := by
  obtain ⟨m, p, unit, rfl, hp, rfl⟩ := hx
  obtain ⟨n, q, other, hlabel, hq, rfl⟩ := hy
  have hspace : ∀ k, ' ' ∉ natText k :=
    fun k hmem => absurd (isDigit_of_mem_natText hmem) (by decide)
  obtain ⟨hnumber, hunit⟩ := append_cons_inj_of_notMem (hspace m) (hspace n) hlabel
  rw [← hunit, hp] at hq
  rw [natText_injective hnumber, Option.some.inj hq]

theorem Names.times_notMem {label : List Char} {x : Rat} (hbase : '×' ∉ family.base.toList)
    (h : family.Names label x) : '×' ∉ label := by
  obtain ⟨n, power, unit, rfl, hpower, -⟩ := h
  intro hmem
  rcases List.mem_append.1 hmem with hdigit | hmem
  · exact absurd (isDigit_of_mem_natText hdigit) (by decide)
  · exact times_notMem_unit hbase hpower (List.mem_of_ne_of_mem (by decide) hmem)

theorem Covers.names_label (h : family.Covers low high) {q : Quantity}
    (hlow : low ≤ q.exponent) (hhigh : q.exponent ≤ high + 2) :
    family.Names (q.rescale.label family) q.value := by
  have hrange := h.range
  have hmultiple := h.multiple
  have hexponent := (Quantity.rescale_of_le (q := q) (by omega)).2
  obtain ⟨unit, hunit⟩ := h.exists_unit q.rescale.exponent (by omega) (by omega) (by omega)
  refine ⟨_, _, _, ?_, (h.of_unit? hunit).2.2, Quantity.exact_rescale q⟩
  rw [ScaledQuantity.label, hunit]

/-! ## Labels without a unit -/

theorem Covers.label_of_beyond (h : family.Covers low high) {q : Quantity}
    (hbeyond : ¬ (low ≤ q.exponent ∧ q.exponent ≤ high + 2)) :
    q.rescale.label family = q.text ++ ' ' :: family.base.toList := by
  cases hunit : family.unit? q.rescale.exponent with
  | none => rw [ScaledQuantity.label, hunit, Quantity.scientificText_rescale]
  | some unit =>
      obtain ⟨hlow, hhigh, -⟩ := h.of_unit? hunit
      refine absurd ?_ hbeyond
      -- Next to the least exponent nothing is rescaled, and no unit is listed there.
      by_cases hrange : -2 ^ 63 ≤ q.exponent - q.exponent % 3
      · rw [(Quantity.rescale_of_le hrange).2] at hlow hhigh
        omega
      · rw [Quantity.rescale_of_lt (Int.not_le.1 hrange)] at hlow hhigh
        have hscaled : q.scaled.exponent = q.exponent := rfl
        omega

theorem times_mem_text {q : Quantity} (h : q.coefficient ≠ 0) : '×' ∈ q.text := by
  have hshows := shows_scientificText h q.exponent
  rw [Quantity.text, hshows.text_eq]
  simp

end UnitFamily

/-! ## What labels say -/

/--
What `label` says of the quantities with exponents from `first` to `last`, and of the
others.
-/
structure LabelsExactly (family : UnitFamily) (label : ScaledQuantity → List Char)
    (first last : Int) : Prop where
  within : ∀ q : Quantity, first ≤ q.exponent → q.exponent ≤ last →
    family.Names (label q.rescale) q.value
  beyond : ∀ q : Quantity, ¬ (first ≤ q.exponent ∧ q.exponent ≤ last) →
    label q.rescale = q.text ++ ' ' :: family.base.toList
  injective : ∀ a b : Quantity, first ≤ a.exponent → a.exponent ≤ last →
    first ≤ b.exponent → b.exponent ≤ last → label a.rescale = label b.rescale → a = b
  apart : ∀ a b : Quantity, first ≤ a.exponent → a.exponent ≤ last →
    ¬ (first ≤ b.exponent ∧ b.exponent ≤ last) → label a.rescale ≠ label b.rescale

theorem UnitFamily.Covers.labelsExactly {family : UnitFamily} {low high : Int}
    (h : family.Covers low high) :
    LabelsExactly family (ScaledQuantity.label · family) low (high + 2) where
  within _ hlow hhigh := h.names_label hlow hhigh
  beyond _ hbeyond := h.label_of_beyond hbeyond
  injective a b hlow hhigh hlow' hhigh' hlabel := by
    have hnames := h.names_label hlow hhigh
    rw [show a.rescale.label family = b.rescale.label family from hlabel] at hnames
    exact Quantity.value_injective (hnames.unique (h.names_label hlow' hhigh'))
  apart a b hlow hhigh hbeyond hlabel := by
    have hne : b.coefficient ≠ 0 := by
      intro hzero
      have hexponent := Quantity.exponent_eq_zero hzero
      have hrange := h.range
      omega
    have htimes := (h.names_label hlow hhigh).times_notMem h.times_notMem
    rw [show a.rescale.label family = b.rescale.label family from hlabel,
      h.label_of_beyond hbeyond] at htimes
    exact htimes (List.mem_append_left _ (UnitFamily.times_mem_text hne))

/--
Labels of times and energies are exact where there is a unit, and the text of the
quantity elsewhere.

That text is the same for the rescaled pair and for the normal form.
-/
theorem Quantity.labels_tell_values :
    LabelsExactly .time ScaledQuantity.timeLabel (-15) 2 ∧
    LabelsExactly .energy ScaledQuantity.energyLabel (-15) 14 ∧
    ∀ q : Quantity, scientificText q.rescale.coefficient q.rescale.exponent =
      scientificText q.coefficient q.exponent :=
  ⟨UnitFamily.covers_time.labelsExactly, UnitFamily.covers_energy.labelsExactly,
    Quantity.scientificText_rescale⟩

example : (Quantity.rescale ⟨2, -1, by decide, by decide, by decide⟩).timeLabel =
    "200 ms".toList := by decide

end WeightedKripke
