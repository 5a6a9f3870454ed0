import WeightedKripke.Node
import WeightedKripke.Quantity.Units

/-!
# Labels of nodes and edges

The label of a node has a line for its phase, its current state, its entry flag,
its next state and each property, in the order of their names.  Every line starts
with an escaped space; property texts are escaped so that the label can stand
between quotation marks.  The label of an edge is already quoted and gives its
time and energy in metric units.
-/

namespace WeightedKripke

namespace Dot

/-- Put a backslash before every backslash and quotation mark. -/
def escape : List Char → List Char
  | [] => []
  | c :: rest =>
      if c = '"' ∨ c = '\\' then '\\' :: c :: escape rest else c :: escape rest

def nodeHeader {V : Type} (node : Node V) : List Char :=
  "\\ «".toList ++ node.phase.title.toList ++ "»\n\\ ".toList ++
    node.currentState.text.toList ++ "\n\\ executeOnEntry: ".toList ++
    (if node.executeOnEntry then "true".toList else "false".toList) ++
    ",\n\\ nextState: ".toList ++ node.nextState.text.toList

/-- One property of a node label, with the comma and line break before it. -/
def propertyLine {V : Type} [PropertyValue V] (entry : Name × V) : List Char :=
  ",\n\\ ".toList ++ entry.1.text.toList ++ ": ".toList ++
    escape (PropertyValue.label entry.2).toList

def nodeLabel {V : Type} [PropertyValue V] (node : Node V) : List Char :=
  nodeHeader node ++ node.properties.entries.flatMap propertyLine

def costLabel (cost : Cost) : List Char :=
  "\"t: ".toList ++ cost.time.rescale.timeLabel ++ ", E: ".toList ++
    cost.energy.rescale.energyLabel ++ "\"".toList

@[simp] theorem escape_nil : escape [] = [] := rfl

end Dot

end WeightedKripke
