import WeightedKripke.Decimal.Digits

/-!
# Property values

The values that a node holds for its properties can be of any type with decidable
equality, a total order that agrees with equality, and a label text.  Booleans,
the signed and unsigned words of 32 and 64 bits and strings are such types.
-/

namespace WeightedKripke

class PropertyValue (V : Type) extends Ord V where
  [decEq : DecidableEq V]
  [transOrd : Std.TransOrd V]
  [lawfulEqOrd : Std.LawfulEqOrd V]
  /-- The text that stands for the value in labels. -/
  label : V → String

attribute [reducible, instance] PropertyValue.decEq

attribute [instance] PropertyValue.transOrd PropertyValue.lawfulEqOrd

instance : PropertyValue Bool where
  label value := if value then "true" else "false"

instance : PropertyValue Int32 where
  label value := String.ofList (Decimal.intText value.toInt)

instance : PropertyValue Int64 where
  label value := String.ofList (Decimal.intText value.toInt)

instance : PropertyValue UInt32 where
  label value := String.ofList (Decimal.natText value.toNat)

instance : PropertyValue UInt64 where
  label value := String.ofList (Decimal.natText value.toNat)

instance : PropertyValue String where
  label value := value

end WeightedKripke
