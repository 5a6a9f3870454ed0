import WeightedKripke.Fault

/-!
# Decoders

A decoder takes a value off the front of a list of symbols, characters or bytes,
and returns it with the rest.  The first fault in reading order ends the decoding.
-/

namespace WeightedKripke

abbrev Decoder (σ α : Type) :=
  List σ → Except Fault (α × List σ)

namespace Decoder

variable {σ α β : Type}

def andThen (decoder : Decoder σ α) (next : α → Except Fault β) : Decoder σ β :=
  fun input => do
    let (a, rest) ← decoder input
    let b ← next a
    .ok (b, rest)

theorem andThen_of_ok {decoder : Decoder σ α} {next : α → Except Fault β} {a : α} {b : β}
    {input rest : List σ} (hread : decoder input = .ok (a, rest)) (hnext : next a = .ok b) :
    decoder.andThen next input = .ok (b, rest) := by
  simp [andThen, hread, hnext, bind, Except.bind]

/-- What is read by `andThen` comes from a value of the first decoder. -/
theorem andThen_eq_ok {decoder : Decoder σ α} {next : α → Except Fault β} {b : β}
    {input rest : List σ} (h : decoder.andThen next input = .ok (b, rest)) :
    ∃ a, decoder input = .ok (a, rest) ∧ next a = .ok b := by
  unfold andThen at h
  cases hread : decoder input with
  | error fault => simp [hread, bind, Except.bind] at h
  | ok pair =>
      obtain ⟨a, more⟩ := pair
      cases hnext : next a with
      | error fault => simp [hread, hnext, bind, Except.bind] at h
      | ok c =>
          simp only [hread, hnext, bind, Except.bind, Except.ok.injEq, Prod.mk.injEq] at h
          exact ⟨a, by rw [h.2], by rw [← h.1]; exact hnext⟩

end Decoder

end WeightedKripke
