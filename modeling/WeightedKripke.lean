import WeightedKripke.Snapshot
import WeightedKripke.Dot.Render
import WeightedKripke.Quantity.Magnitude
import WeightedKripke.Proofs.Decimal.Text
import WeightedKripke.Proofs.Decimal.Value
import WeightedKripke.Proofs.Decimal.Rounding
import WeightedKripke.Proofs.Decimal.Scientific
import WeightedKripke.Proofs.Quantity.Normal
import WeightedKripke.Proofs.Quantity.Value
import WeightedKripke.Proofs.Quantity.Stripping
import WeightedKripke.Proofs.Quantity.Label
import WeightedKripke.Proofs.Quantity.Rescaling
import WeightedKripke.Proofs.Quantity.Order
import WeightedKripke.Proofs.Quantity.Alignment
import WeightedKripke.Proofs.Quantity.Outcome
import WeightedKripke.Proofs.Quantity.Sum
import WeightedKripke.Proofs.Quantity.Difference
import WeightedKripke.Proofs.Quantity.Arithmetic
import WeightedKripke.Proofs.Quantity.Expression
import WeightedKripke.Proofs.SortedMap
import WeightedKripke.Proofs.Name.Grammar
import WeightedKripke.Proofs.Name.Refusal
import WeightedKripke.Proofs.Name.Order
import WeightedKripke.Proofs.Json.Text
import WeightedKripke.Proofs.Json.Record
import WeightedKripke.Proofs.Json.Codec
import WeightedKripke.Proofs.Json.Graph
import WeightedKripke.Proofs.Json.RoundTrip
import WeightedKripke.Proofs.Json.Grammar
import WeightedKripke.Proofs.Json.Verdict
import WeightedKripke.Proofs.Binary.Codec
import WeightedKripke.Proofs.Binary.Graph
import WeightedKripke.Proofs.Binary.Framing
import WeightedKripke.Proofs.Structure.Equivalence
import WeightedKripke.Proofs.Structure.Layout
import WeightedKripke.Proofs.Structure.Validity
import WeightedKripke.Proofs.Structure.Description
import WeightedKripke.Proofs.Structure.WrittenOrder
import WeightedKripke.Proofs.Dot.Reader
import WeightedKripke.Proofs.Dot.Label
import WeightedKripke.Proofs.Dot.Statement
import WeightedKripke.Proofs.Dot.ReadBack
import WeightedKripke.Proofs.Snapshot.RoundTrip
import WeightedKripke.Proofs.Snapshot.Integrity
import WeightedKripke.Proofs.Snapshot.Canonical
import WeightedKripke.Proofs.Snapshot.Framing
import WeightedKripke.Proofs.Dot.Dependence
import WeightedKripke.Proofs.Dot.Refusal
import WeightedKripke.Proofs.Dot.NodeLabel
import WeightedKripke.Proofs.Dot.Indentation
import WeightedKripke.Proofs.Structure.Decoding
import WeightedKripke.Proofs.Quantity.Comparison
import WeightedKripke.Proofs.Cost.Cancellation
import WeightedKripke.Operators
import WeightedKripke.Proofs.Quantity.Total
import WeightedKripke.Proofs.Quantity.Representable
import WeightedKripke.Proofs.Json.VerdictRecord
import WeightedKripke.Proofs.Json.VerdictCodec
import WeightedKripke.Proofs.Snapshot.ForeignVersion
import WeightedKripke.Proofs.Cost.Total
import WeightedKripke.Proofs.Decimal.Nearest
import WeightedKripke.Proofs.Decimal.Shortest
import WeightedKripke.Proofs.Decimal.Positional
import WeightedKripke.Proofs.Quantity.Double
import WeightedKripke.Proofs.Node.Order
import WeightedKripke.Proofs.Node.Insertion
