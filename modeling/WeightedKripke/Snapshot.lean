import WeightedKripke.Binary.Graph
import WeightedKripke.Json.Graph
import WeightedKripke.Structure.Validation

/-!
# Snapshots

A snapshot is a structure with the version of the format it is stored in.  It can
be written as JSON, compact or in lines, and as bytes.  Reading decodes the whole
snapshot, then checks its version, then that the structure is well formed; so what
is read from anywhere can be drawn and stored again.
-/

namespace WeightedKripke

structure Snapshot (V : Type) where
  version : UInt32
  model : KripkeStructure V

inductive SnapshotError (V : Type) where
  /-- The text or the bytes do not hold a snapshot. -/
  | undecodable (fault : Fault)
  | unsupportedVersion (found : UInt32)
  | invalid (error : GraphError V)
deriving DecidableEq

namespace Snapshot

/-- The version that is written and the only one that is read. -/
def supportedVersion : UInt32 := 1

variable {V : Type}

def ofStructure (model : KripkeStructure V) : Snapshot V :=
  ⟨supportedVersion, model⟩

def Equivalent (a b : Snapshot V) : Prop :=
  a.version = b.version ∧ a.model.Equivalent b.model

variable [PropertyValue V]

instance (a b : Snapshot V) : Decidable (Equivalent a b) :=
  inferInstanceAs (Decidable (_ ∧ _))

/-- Check the version, then the structure. -/
def verify (s : Snapshot V) : Except (SnapshotError V) (Snapshot V) :=
  if s.version = supportedVersion then
    match s.model.validate with
    | .ok () => .ok s
    | .error error => .error (.invalid error)
  else
    .error (.unsupportedVersion s.version)

section Json

variable [JsonCodec V]

def jsonFields (V : Type) [PropertyValue V] [JsonCodec V] :=
  Json.Fields.field "version" (JsonCodec.reader (α := UInt32)) <|
  .field "structure" (JsonCodec.reader (α := KripkeStructure V)) .done

instance : JsonCodec (Snapshot V) where
  encode s :=
    .object
      [("version", JsonCodec.encode s.version), ("structure", JsonCodec.encode s.model)]
  reader :=
    Decoder.andThen (jsonFields V).record fun (version, model, ()) => .ok ⟨version, model⟩

def toJson (s : Snapshot V) : String :=
  JsonCodec.toCompact s

def toJsonIndented (s : Snapshot V) : String :=
  JsonCodec.toIndented s

def ofJson (text : String) : Except (SnapshotError V) (Snapshot V) :=
  match JsonCodec.decode text with
  | .ok s => verify s
  | .error fault => .error (.undecodable fault)

end Json

section Binary

variable [BinaryCodec V]

instance : BinaryCodec (Snapshot V) where
  put s := BinaryCodec.put (s.version, s.model)
  get := Decoder.andThen BinaryCodec.get fun (version, model) => .ok ⟨version, model⟩

def toBinary (s : Snapshot V) : Bytes :=
  BinaryCodec.put s

/-- Read and verify bytes; bytes behind the snapshot are not looked at. -/
def ofBinary (bytes : Bytes) : Except (SnapshotError V) (Snapshot V) :=
  match BinaryCodec.get bytes with
  | .ok (s, _) => verify s
  | .error fault => .error (.undecodable fault)

end Binary

end Snapshot

namespace SnapshotError

variable {V : Type} [PropertyValue V]

def message? : SnapshotError V → Option String
  | undecodable fault => fault.message?
  | unsupportedVersion found =>
      some ("Unsupported snapshot version " ++ String.ofList (Decimal.natText found.toNat) ++
        ", supported: " ++
        String.ofList (Decimal.natText Snapshot.supportedVersion.toNat))
  | invalid error => some ("Snapshot validation failed: " ++ error.message)

end SnapshotError

end WeightedKripke
