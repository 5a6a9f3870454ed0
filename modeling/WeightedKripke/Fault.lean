import WeightedKripke.Name
import WeightedKripke.Quantity.Error

/-!
# Decoding faults

Why a text or a byte sequence does not hold a value of the expected type.  Broken
syntax, a value of another type and a number out of range are not told apart.  The
other faults name what is wrong and can be worded.
-/

namespace WeightedKripke

inductive Fault where
  /-- Broken syntax, a value of the wrong type, or a number out of range. -/
  | malformed
  | missingField (name : String)
  | duplicateField (name : String)
  | unknownVariant (found : String) (expected : List String)
  | name (error : NameError)
  | quantity (error : QuantityError)
deriving DecidableEq

namespace Fault

def marked (word : String) : String :=
  "`" ++ word ++ "`"

def alternatives : List String → String
  | [] => "there are no variants"
  | [only] => "expected " ++ marked only
  | [first, second] => "expected " ++ marked first ++ " or " ++ marked second
  | several => "expected one of " ++ String.intercalate ", " (several.map marked)

def message? : Fault → Option String
  | malformed => none
  | missingField field => some ("missing field " ++ marked field)
  | duplicateField field => some ("duplicate field " ++ marked field)
  | unknownVariant found expected =>
      some ("unknown variant " ++ marked found ++ ", " ++ alternatives expected)
  | name error => some error.message
  | quantity error => some error.message

end Fault

end WeightedKripke
