import WeightedKripke.Dot.Label
import WeightedKripke.Structure.Validation

/-!
# Statements of a drawing

A structure is drawn by four kinds of statements: the record of a node, the marker
of an initial node, the arrow from the marker to its node, and an edge between two
nodes.  Nodes are referred to by their position.  Sources that are not listed are
left out; a repeated node, an unlisted initial node or an unlisted target is an
error, reported in this order.
-/

namespace WeightedKripke

namespace Dot

inductive Statement where
  /-- The point in front of an initial node. -/
  | marker (id : Nat)
  /-- A node with its label, which is quoted here. -/
  | record (id : Nat) (label : List Char)
  /-- The arrow from the marker of an initial node to the node. -/
  | start (id : Nat)
  /-- An edge with its label, which is quoted already. -/
  | edge (source target : Nat) (label : List Char)
deriving DecidableEq

namespace Statement

def nodeId (id : Nat) : List Char :=
  '"' :: (Decimal.natText id ++ ['"'])

def markerId (id : Nat) : List Char :=
  '"' :: (Decimal.natText id ++ "-0\"".toList)

def text : Statement → List Char
  | marker id => markerId id ++ " [shape=point]".toList
  | record id label =>
      nodeId id ++ " [style=rounded shape=rectangle label=\"".toList ++ label ++
        "\"]".toList
  | start id => markerId id ++ " -> ".toList ++ nodeId id
  | edge source target label =>
      nodeId source ++ " -> ".toList ++ nodeId target ++ " [label=".toList ++ label ++
        "]".toList

end Statement

variable {V : Type} [PropertyValue V]

/-- The statements of one node: its record, between marker and arrow if it is initial. -/
def nodeStatements (s : KripkeStructure V) (node : Node V) (id : Nat) : List Statement :=
  if s.isInitial node then
    [.marker id, .record id (nodeLabel node), .start id]
  else
    [.record id (nodeLabel node)]

def edgeStatements (s : KripkeStructure V) (node : Node V) (id : Nat) : List Statement :=
  (s.edgesFrom node).map fun edge =>
    .edge id (s.nodes.idxOf edge.target) (costLabel edge.cost)

/-- All statements: the nodes by position, then the edges by the position of their source. -/
def statements (s : KripkeStructure V) : Except (GraphError V) (List Statement) :=
  match firstRepetition? s.nodes with
  | some (first, second) => .error (.duplicateNode first second)
  | none =>
      match s.unlistedInitial? with
      | some node => .error (.missingInitialState node)
      | none =>
          match s.unlistedTarget? with
          | some (source, edge, node) => .error (.missingEdgeTarget source edge node)
          | none =>
              .ok
                (s.nodes.zipIdx.flatMap (fun (node, id) => nodeStatements s node id) ++
                  s.nodes.zipIdx.flatMap (fun (node, id) => edgeStatements s node id))

end Dot

end WeightedKripke
