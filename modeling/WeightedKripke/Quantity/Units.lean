import WeightedKripke.Quantity.Error

/-!
# Metric units

A scaled quantity is a coefficient and an exponent that need not be in normal
form.  `Quantity.rescale` moves a quantity to an exponent divisible by three, so
that it lines up with a metric unit; `timeLabel` and `energyLabel` then write the
coefficient with the unit of that exponent, or scientific notation with the base
unit where no unit is listed.
-/

namespace WeightedKripke

/-- A coefficient of up to 128 bits and an exponent, taken as they are. -/
@[ext] structure ScaledQuantity where
  coefficient : Nat
  exponent : Int
  coefficient_lt : coefficient < 2 ^ 128
  exponent_range : ExponentRange exponent

instance : DecidableEq ScaledQuantity := fun _ _ =>
  decidable_of_iff _ ScaledQuantity.ext_iff.symm

/-- A base unit and the units for its multiples, by power of ten. -/
structure UnitFamily where
  base : String
  units : List (Int × String)

namespace UnitFamily

def time : UnitFamily where
  base := "s"
  units :=
    [(0, "s"), (-3, "ms"), (-6, "μs"), (-9, "ns"), (-12, "ps"), (-15, "fs")]

def energy : UnitFamily where
  base := "J"
  units :=
    [(12, "TJ"), (9, "GJ"), (6, "MJ"), (3, "kJ"), (0, "J"), (-3, "mJ"), (-6, "μJ"),
      (-9, "nJ"), (-12, "pJ"), (-15, "fJ")]

def unit? (family : UnitFamily) (exponent : Int) : Option String :=
  family.units.lookup exponent

end UnitFamily

namespace ScaledQuantity

def ofParts? (coefficient : Nat) (exponent : Int) : Option ScaledQuantity :=
  if h : coefficient < 2 ^ 128 ∧ ExponentRange exponent then
    some ⟨coefficient, exponent, h.1, h.2⟩
  else
    none

/-- The coefficient with the unit of its exponent, else scientific notation and the base unit. -/
def label (q : ScaledQuantity) (family : UnitFamily) : List Char :=
  match family.unit? q.exponent with
  | some unit => Decimal.natText q.coefficient ++ ' ' :: unit.toList
  | none =>
      Decimal.scientificText q.coefficient q.exponent ++ ' ' :: family.base.toList

def timeLabel (q : ScaledQuantity) : List Char :=
  q.label .time

def energyLabel (q : ScaledQuantity) : List Char :=
  q.label .energy

end ScaledQuantity

namespace Quantity

def scaled (q : Quantity) : ScaledQuantity where
  coefficient := q.coefficient
  exponent := q.exponent
  coefficient_lt := Nat.lt_trans q.coefficient_lt (by decide)
  exponent_range := q.exponent_range

/--
The same value at the next exponent downwards that is divisible by three.

Where that exponent is out of range the pair stays as it is.
-/
def rescale (q : Quantity) : ScaledQuantity :=
  let shift := q.exponent % 3
  if h : -2 ^ 63 ≤ q.exponent - shift then
    { coefficient := q.coefficient * 10 ^ shift.toNat
      exponent := q.exponent - shift
      coefficient_lt := by
        have hshift : shift.toNat ≤ 2 := by omega
        calc
          q.coefficient * 10 ^ shift.toNat ≤ q.coefficient * 10 ^ 2 :=
            Nat.mul_le_mul_left _ (Nat.pow_le_pow_right (by decide) hshift)
          _ < 2 ^ 128 := by
            have := q.coefficient_lt
            omega
      exponent_range := by
        have := q.exponent_range
        unfold ExponentRange at *
        omega }
  else
    q.scaled

end Quantity

end WeightedKripke
