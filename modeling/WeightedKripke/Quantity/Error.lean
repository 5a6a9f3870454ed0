import WeightedKripke.Decimal.Scientific
import WeightedKripke.Decimal.Shortest
import WeightedKripke.Quantity.Basic

/-!
# Quantity errors

Why a number or the result of an operation is not a quantity.  Every error keeps
the operands it is about; `QuantityError.message` is the only place where they
are worded.
-/

namespace WeightedKripke

namespace Quantity

def text (q : Quantity) : List Char :=
  Decimal.scientificText q.coefficient q.exponent

instance : ToString Quantity := ⟨fun q => String.ofList q.text⟩

end Quantity

inductive SourceNumber where
  | integer (value : Int)
  | double (value : Decimal.Binary64)
deriving DecidableEq

namespace SourceNumber

def text : SourceNumber → String
  | integer value => String.ofList (Decimal.intText value)
  | double value => String.ofList value.text

end SourceNumber

inductive CoefficientOverflow where
  /-- The double is an integer beyond every coefficient. -/
  | double (value : Decimal.Binary64)
  /-- The quantity cannot be written at the lower exponent. -/
  | alignment (quantity : Quantity) (exponent : Int)
  | sum (left right : Quantity)
  | product (left right : Quantity)
deriving DecidableEq

namespace CoefficientOverflow

def text : CoefficientOverflow → String
  | double value => String.ofList value.text ++ " does not fit a u64 coefficient"
  | alignment quantity exponent =>
      toString quantity ++ " cannot be aligned to exponent " ++
        String.ofList (Decimal.intText exponent)
  | sum left right => toString left ++ " + " ++ toString right
  | product left right => toString left ++ " * " ++ toString right

end CoefficientOverflow

inductive QuantityError where
  | negative (value : SourceNumber)
  | nonFinite (value : Decimal.Binary64)
  | overflow (cause : CoefficientOverflow)
  /-- A difference would be below zero. -/
  | underflow (left right : Quantity)
  /-- The exponent leaves the 64-bit range. -/
  | exponentOverflow (coefficient : Nat) (exponent : Int)
deriving DecidableEq

namespace QuantityError

def message : QuantityError → String
  | negative value => "Negative magnitude " ++ value.text ++ " cannot be represented"
  | nonFinite value =>
      "Non-finite magnitude " ++ String.ofList value.text ++ " cannot be represented"
  | overflow cause => "Coefficient overflow: " ++ cause.text
  | underflow left right =>
      "Subtraction underflow: " ++ toString left ++ " - " ++ toString right ++
        " is negative"
  | exponentOverflow coefficient exponent =>
      "Exponent overflow: " ++ String.ofList (Decimal.natText coefficient) ++ "×10^" ++
        String.ofList (Decimal.intText exponent) ++ " is out of range"

end QuantityError

end WeightedKripke
