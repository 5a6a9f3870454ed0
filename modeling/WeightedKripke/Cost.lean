import WeightedKripke.Quantity.Arithmetic

/-!
# Costs

The time in seconds and the energy in joules that a transition takes.  Costs are
added and subtracted by component, the time first.
-/

namespace WeightedKripke

/-- Time and energy spent on a transition. -/
@[ext] structure Cost where
  time : Quantity
  energy : Quantity
deriving DecidableEq

namespace Cost

def zero : Cost := ⟨.zero, .zero⟩

/-- The sum of both components; an error of the time comes first. -/
def add (a b : Cost) : Except QuantityError Cost := do
  let time ← a.time.add b.time
  let energy ← a.energy.add b.energy
  return ⟨time, energy⟩

def sub (a b : Cost) : Except QuantityError Cost := do
  let time ← a.time.sub b.time
  let energy ← a.energy.sub b.energy
  return ⟨time, energy⟩

end Cost

end WeightedKripke
