import Mathlib.Tactic.ByContra
import WeightedKripke.Binary.Graph
import WeightedKripke.Proofs.Binary.Codec

/-!
# More bytes do not change what was read

A decoder of bytes fails for want of input only by calling the bytes malformed.  Every
other outcome was settled by the bytes that were read and stands when more bytes follow:
`Decoder.Steady`.  With this a value can be neither read from a part of its bytes nor
changed by what is stored behind it.
-/

namespace WeightedKripke

namespace Decoder

variable {σ α β : Type}

/-- An outcome when more input follows what was left over. -/
def extend (tail : List σ) : Except Fault (α × List σ) → Except Fault (α × List σ)
  | .ok (a, rest) => .ok (a, rest ++ tail)
  | .error fault => .error fault

/-- Unless the input is malformed, its outcome stands when more input follows. -/
def Steady (decoder : Decoder σ α) : Prop :=
  ∀ input tail, decoder input ≠ .error .malformed →
    decoder (input ++ tail) = extend tail (decoder input)

theorem steady_pure (a : α) : Steady fun input : List σ => .ok (a, input) := by
  intro input tail _
  rfl

theorem Steady.bind {decoder : Decoder σ α} {next : α → Decoder σ β} (h : decoder.Steady)
    (hnext : ∀ a, (next a).Steady) :
    Steady (fun input => do
      let (a, rest) ← decoder input
      next a rest) := by
  intro input tail hne
  cases hread : decoder input with
  | error fault =>
      have hfault : decoder input ≠ .error .malformed := by
        rintro heq
        simp [heq, Bind.bind, Except.bind] at hne
      simp [h input tail hfault, hread, extend, Bind.bind, Except.bind]
  | ok pair =>
      obtain ⟨a, rest⟩ := pair
      have hsettled : decoder input ≠ .error .malformed := by
        simp [hread]
      simp only [hread, Bind.bind, Except.bind] at hne
      simp only [h input tail hsettled, hread, extend, Bind.bind, Except.bind]
      exact hnext a rest tail hne

theorem Steady.andThen {decoder : Decoder σ α} (h : decoder.Steady)
    (next : α → Except Fault β) : (decoder.andThen next).Steady := by
  have hnext : ∀ a, Steady (fun rest : List σ => do
      let b ← next a
      .ok (b, rest)) := by
    intro a rest tail _
    cases next a <;> rfl
  exact h.bind hnext

/-- A decoder that took a value in front of all that follows has no use for less input. -/
theorem Steady.torn {decoder : Decoder σ α} (h : decoder.Steady) {a : α}
    {input start : List σ} (hread : decoder input = .ok (a, [])) (hstart : start <+: input)
    (hne : start ≠ input) : decoder start = .error .malformed := by
  obtain ⟨tail, rfl⟩ := hstart
  by_contra hsettled
  have hextend := h start tail hsettled
  rw [hread] at hextend
  cases houtcome : decoder start with
  | error fault =>
      rw [houtcome] at hextend
      cases hextend
  | ok pair =>
      rw [houtcome, extend, Except.ok.injEq, Prod.mk.injEq] at hextend
      have htail : tail = [] := (List.append_eq_nil_iff.1 hextend.2.symm).2
      rw [htail, List.append_nil] at hne
      exact hne rfl

end Decoder

open Decoder

class SteadyBinaryCodec (α : Type) [BinaryCodec α] : Prop where
  steady : Steady (BinaryCodec.get (α := α))

export SteadyBinaryCodec (steady)

namespace Binary

theorem steady_getWord (width : Nat) : Steady (getWord width) := by
  induction width with
  | zero => exact steady_pure 0
  | succ width ih =>
      intro bytes tail hne
      cases bytes with
      | nil => exact absurd rfl hne
      | cons byte rest =>
          exact (ih.bind fun high => steady_pure (byte.toNat + 256 * high)) rest tail hne

theorem steady_getAlternative {α : Type} (all : List α) : Steady (getAlternative all) :=
  (steady_getWord 4).andThen _

theorem steady_getMany {α : Type} {item : Decoder UInt8 α} (h : item.Steady) (count : Nat) :
    Steady (getMany item count) := by
  induction count with
  | zero => exact steady_pure []
  | succ count ih => exact h.bind fun a => ih.bind fun more => steady_pure (a :: more)

/-- A text that is complete is cut off at the same byte, whatever follows. -/
theorem steady_getText : Steady getText := by
  intro bytes tail hne
  unfold getText at hne ⊢
  cases hword : getWord 8 bytes with
  | error fault =>
      have hfault : getWord 8 bytes ≠ .error .malformed := by
        intro heq
        simp [heq, bind, Except.bind] at hne
      simp only [steady_getWord 8 bytes tail hfault, hword, extend, bind, Except.bind]
  | ok pair =>
      obtain ⟨size, rest⟩ := pair
      have hsettled : getWord 8 bytes ≠ .error .malformed := by
        simp [hword]
      simp only [hword, bind, Except.bind] at hne
      by_cases hsize : size ≤ rest.length
      · have hlonger : size ≤ (rest ++ tail).length := by
          rw [List.length_append]
          omega
        simp only [steady_getWord 8 bytes tail hsettled, hword, extend, bind, Except.bind,
          if_pos hsize, if_pos hlonger, List.take_append_of_le_length hsize,
          List.drop_append_of_le_length hsize]
        split <;> rfl
      · simp only [if_neg hsize] at hne
        exact absurd rfl hne

end Binary

open Binary

/-! ## Values -/

instance : SteadyBinaryCodec Bool where
  steady := by
    intro bytes tail hne
    cases bytes with
    | nil => exact absurd rfl hne
    | cons byte rest =>
        simp only [BinaryCodec.get, List.cons_append]
        split
        · rfl
        · split <;> rfl

instance : SteadyBinaryCodec UInt64 := ⟨(steady_getWord 8).andThen _⟩

instance : SteadyBinaryCodec UInt32 := ⟨(steady_getWord 4).andThen _⟩

instance : SteadyBinaryCodec Int64 := ⟨(steady (α := UInt64)).andThen _⟩

instance : SteadyBinaryCodec Int32 := ⟨(steady (α := UInt32)).andThen _⟩

instance : SteadyBinaryCodec String := ⟨steady_getText⟩

instance {α : Type} [BinaryCodec α] [SteadyBinaryCodec α] : SteadyBinaryCodec (List α) :=
  ⟨(steady_getWord 8).bind fun count => steady_getMany steady count⟩

instance {α β : Type} [BinaryCodec α] [SteadyBinaryCodec α] [BinaryCodec β]
    [SteadyBinaryCodec β] : SteadyBinaryCodec (α × β) :=
  ⟨(steady (α := α)).bind fun a => (steady (α := β)).bind fun b => steady_pure (a, b)⟩

instance : SteadyBinaryCodec Bit := ⟨steady_getAlternative Bit.all⟩

instance : SteadyBinaryCodec Logic := ⟨steady_getAlternative Logic.all⟩

instance : SteadyBinaryCodec SignalKind := ⟨steady_getAlternative SignalKind.all⟩

theorem SignalLiteral.steady_getPayload (kind : SignalKind) : Steady (getPayload kind) := by
  cases kind with
  | bit => exact (steady (α := Bit)).andThen fun value => .ok (SignalLiteral.bit value)
  | logic => exact (steady (α := Logic)).andThen fun value => .ok (SignalLiteral.logic value)
  | integer =>
      exact (steady (α := Int64)).andThen fun value => .ok (SignalLiteral.integer value)
  | boolean =>
      exact (steady (α := Bool)).andThen fun value => .ok (SignalLiteral.boolean value)

instance : SteadyBinaryCodec SignalLiteral :=
  ⟨(steady (α := SignalKind)).bind SignalLiteral.steady_getPayload⟩

instance : SteadyBinaryCodec Name := ⟨(steady (α := String)).andThen _⟩

instance : SteadyBinaryCodec Quantity := ⟨(steady (α := UInt64 × Int64)).andThen _⟩

instance : SteadyBinaryCodec Cost := ⟨(steady (α := Quantity × Quantity)).andThen _⟩

/-! ## Nodes and structures -/

instance : SteadyBinaryCodec Phase := ⟨steady_getAlternative Phase.all⟩

variable {V : Type} [PropertyValue V] [BinaryCodec V] [SteadyBinaryCodec V]

instance : SteadyBinaryCodec (SortedMap Name V) := ⟨(steady (α := List (Name × V))).andThen _⟩

instance : SteadyBinaryCodec (Node V) :=
  ⟨(steady (α := Phase × Name × Bool × Name × SortedMap Name V)).andThen _⟩

instance : SteadyBinaryCodec (Edge V) := ⟨(steady (α := Node V × Cost)).andThen _⟩

instance : SteadyBinaryCodec (Transitions V) :=
  ⟨(steady (α := Node V × List (Edge V))).andThen _⟩

instance : SteadyBinaryCodec (Layout V) :=
  ⟨(steady (α := List (Node V) × List (Transitions V) × List (Node V))).andThen _⟩

instance : SteadyBinaryCodec (KripkeStructure V) := ⟨(steady (α := Layout V)).andThen _⟩

end WeightedKripke
