import WeightedKripke.Dot.Statement

/-!
# Graph text

The statements of a structure as the text of a directed graph.  Options set the
indentation and an optional name of the graph.  Every line of a statement is
indented; line breaks inside labels are kept, so labels read as they were written
but for the indentation.
-/

namespace WeightedKripke

namespace Dot

structure Options where
  /-- Number of spaces before every line inside the graph. -/
  indent : Nat := 4
  /-- Name of the graph; without one it is anonymous. -/
  graphName : Option String := none
deriving DecidableEq

/--
The lines of a text.

A line ends at a line feed, or at a carriage return right before one; a text that
ends with a line feed has no further line.
-/
def splitLines : List Char → List (List Char)
  | [] => []
  | '\n' :: rest => [] :: splitLines rest
  | '\r' :: '\n' :: rest => [] :: splitLines rest
  | c :: rest =>
      match splitLines rest with
      | [] => [[c]]
      | line :: more => (c :: line) :: more

namespace Options

def header (options : Options) : List Char :=
  match options.graphName with
  | none => "digraph \x7b".toList
  | some name => "digraph \"".toList ++ escape name.toList ++ "\" \x7b".toList

def indented (options : Options) (line : List Char) : List Char :=
  '\n' :: (List.replicate options.indent ' ' ++ line)

def wrap (options : Options) (statements : List (List Char)) : List Char :=
  options.header ++ (statements.flatMap splitLines).flatMap options.indented ++
    "\n\x7d".toList

end Options

variable {V : Type} [PropertyValue V]

def renderText (s : KripkeStructure V) (options : Options) :
    Except (GraphError V) (List Char) :=
  (statements s).map fun body => options.wrap (body.map Statement.text)

def render (s : KripkeStructure V) (options : Options) :
    Except (GraphError V) String :=
  (renderText s options).map String.ofList

end Dot

end WeightedKripke
