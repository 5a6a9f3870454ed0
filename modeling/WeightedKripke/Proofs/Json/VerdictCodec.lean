import WeightedKripke.Json.Graph
import WeightedKripke.Proofs.Json.VerdictRecord

/-!
# Stored values are judged by their own text

All values that a structure is made of, and structures themselves, are read from JSON with
an outcome that the text of the value decides alone: the one of `decodeText`.
-/

namespace WeightedKripke

open Json Json.Grammar Json.Reader Json.Fields

class JudgingJsonCodec (α : Type) [JsonCodec α] : Prop where
  judges : Judges (JsonCodec.reader (α := α))

export JudgingJsonCodec (judges)

/-- A text with one value and blanks around it is decoded to the outcome for the value. -/
theorem Json.Takes.decodeText_eq {α : Type} [JsonCodec α] {left value right : List Char}
    {outcome : Except Fault α} (h : Takes (JsonCodec.reader (α := α)) value outcome)
    (valid : Value value) (before : Blanks left) (after : Blanks right) :
    JsonCodec.decodeText (left ++ (value ++ right)) = outcome := by
  have hends : Delimited right := by
    cases right with
    | nil => exact delimited_nil
    | cons c right => exact delimited_cons right (Or.inl (after c List.mem_cons_self))
  have hblank : skipBlanks right = [] := by
    have hskip := skipBlanks_append [] after
    rwa [List.append_nil] at hskip
  rw [JsonCodec.decodeText, h.takes (valid.skipBlanks before right) hends]
  cases outcome with
  | error fault => rfl
  | ok a => simp only [leaving, hblank]

/-- Wherever a value stands, it is read as it is from a text that holds nothing else. -/
theorem takes_decodeText {α : Type} [JsonCodec α] [JudgingJsonCodec α] {value : List Char}
    (valid : Value value) :
    Takes (JsonCodec.reader (α := α)) value (JsonCodec.decodeText value) := by
  obtain ⟨outcome, htakes⟩ := (judges (α := α)).judges valid
  have hdecode := htakes.decodeText_eq valid blanks_nil blanks_nil
  rw [List.nil_append, List.append_nil] at hdecode
  rw [hdecode]
  exact htakes

/-! ## Values -/

theorem judges_integerIn (low high : Int) : Judges (integerIn low high) :=
  judges_integer.andThen _

instance : JudgingJsonCodec Bool := ⟨judges_bool⟩

instance : JudgingJsonCodec Int32 :=
  ⟨(judges_integerIn _ _).andThen fun i => .ok (Int32.ofInt i.val)⟩

instance : JudgingJsonCodec Int64 :=
  ⟨(judges_integerIn _ _).andThen fun i => .ok (Int64.ofInt i.val)⟩

instance : JudgingJsonCodec UInt32 :=
  ⟨(judges_integerIn _ _).andThen fun i => .ok (UInt32.ofNat i.val.toNat)⟩

instance : JudgingJsonCodec UInt64 :=
  ⟨(judges_integerIn _ _).andThen fun i => .ok (UInt64.ofNat i.val.toNat)⟩

instance : JudgingJsonCodec String := ⟨judges_string⟩

theorem SignalLiteral.judges_payload (kind : SignalKind) : Judges (signalPayload kind) := by
  cases kind with
  | bit =>
      exact (judges_choice Bit.name Bit.all).andThen fun value => .ok (SignalLiteral.bit value)
  | logic =>
      exact (judges_choice Logic.name Logic.all).andThen
        fun value => .ok (SignalLiteral.logic value)
  | integer =>
      exact (judges (α := Int64)).andThen fun value => .ok (SignalLiteral.integer value)
  | boolean =>
      exact (judges (α := Bool)).andThen fun value => .ok (SignalLiteral.boolean value)

instance : JudgingJsonCodec SignalLiteral :=
  ⟨judges_tagged SignalKind.name SignalKind.all SignalLiteral.judges_payload⟩

instance : JudgingJsonCodec Name := ⟨judges_string.andThen _⟩

theorem Quantity.judged_jsonFields : Quantity.jsonFields.Judged :=
  ⟨judges (α := UInt64), judges (α := Int64), trivial⟩

instance : JudgingJsonCodec Quantity := ⟨(judges_record Quantity.judged_jsonFields).andThen _⟩

theorem Cost.judged_jsonFields : Cost.jsonFields.Judged :=
  ⟨judges (α := Quantity), judges (α := Quantity), trivial⟩

instance : JudgingJsonCodec Cost := ⟨(judges_record Cost.judged_jsonFields).andThen _⟩

/-! ## Nodes and structures -/

instance : JudgingJsonCodec Phase := ⟨judges_choice Phase.name Phase.all⟩

instance {α : Type} [JsonCodec α] [JudgingJsonCodec α] : JudgingJsonCodec (List α) :=
  ⟨judges_list judges⟩

variable {V : Type} [JsonCodec V] [JudgingJsonCodec V]

theorem judges_properties : Judges (properties (V := V)) :=
  (judges_map _ judges).andThen _

variable [PropertyValue V]

theorem Node.judged_jsonFields : (Node.jsonFields V).Judged :=
  ⟨judges (α := Phase), judges (α := Name), judges (α := Bool), judges (α := Name),
    judges_properties, trivial⟩

instance : JudgingJsonCodec (Node V) := ⟨(judges_record Node.judged_jsonFields).andThen _⟩

theorem Edge.judged_jsonFields : (Edge.jsonFields V).Judged :=
  ⟨judges (α := Node V), judges (α := Cost), trivial⟩

instance : JudgingJsonCodec (Edge V) := ⟨(judges_record Edge.judged_jsonFields).andThen _⟩

theorem Transitions.judged_jsonFields : (Transitions.jsonFields V).Judged :=
  ⟨judges (α := Node V), judges (α := List (Edge V)), trivial⟩

instance : JudgingJsonCodec (Transitions V) :=
  ⟨(judges_record Transitions.judged_jsonFields).andThen _⟩

theorem Layout.judged_jsonFields : (Layout.jsonFields V).Judged :=
  ⟨judges (α := List (Node V)), judges (α := List (Transitions V)),
    judges (α := List (Node V)), trivial⟩

instance : JudgingJsonCodec (Layout V) := ⟨(judges_record Layout.judged_jsonFields).andThen _⟩

instance : JudgingJsonCodec (KripkeStructure V) := ⟨(judges (α := Layout V)).andThen _⟩

end WeightedKripke
