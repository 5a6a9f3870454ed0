import WeightedKripke.Json.Reader

/-!
# Reading records, lists and maps

A record is read from an object whose members come in any order, or from an array
with exactly its fields in order.  `Fields` lists the names and readers of the
fields; reading fills one slot for each field, so a repeated member is noticed when
its key is read and an absent one when the object ends.  Members of other names
are skipped.
-/

namespace WeightedKripke

namespace Json

namespace Reader

/-! ## Lists -/

def itemsFuel {α : Type} (item : Reader α) : Nat → Reader (List α)
  | 0, _ => .error .malformed
  | fuel + 1, text => do
      let (a, rest) ← item text
      match skipBlanks rest with
      | ',' :: rest =>
          let (more, rest) ← itemsFuel item fuel rest
          .ok (a :: more, rest)
      | ']' :: rest => .ok ([a], rest)
      | _ => .error .malformed

def list {α : Type} (item : Reader α) : Reader (List α) := fun text => do
  let ((), rest) ← token '[' text
  match skipBlanks rest with
  | ']' :: rest => .ok ([], rest)
  | rest => itemsFuel item rest.length rest

/-! ## Maps -/

def membersFuel {κ β : Type} (key : String → Except Fault κ) (value : Reader β) :
    Nat → Reader (List (κ × β))
  | 0, _ => .error .malformed
  | fuel + 1, text => do
      let (name, rest) ← string text
      let k ← key name
      let ((), rest) ← token ':' rest
      let (v, rest) ← value rest
      match skipBlanks rest with
      | ',' :: rest =>
          let (more, rest) ← membersFuel key value fuel rest
          .ok ((k, v) :: more, rest)
      | '\x7d' :: rest => .ok ([(k, v)], rest)
      | _ => .error .malformed

/--
An object as a list of entries.

Each key is checked before its colon is read.
-/
def map {κ β : Type} (key : String → Except Fault κ) (value : Reader β) :
    Reader (List (κ × β)) := fun text => do
  let ((), rest) ← token '\x7b' text
  match skipBlanks rest with
  | '\x7d' :: rest => .ok ([], rest)
  | rest => membersFuel key value rest.length rest

/-! ## Alternatives -/

def variant {α : Type} (name : α → String) (all : List α) (found : String) :
    Except Fault α :=
  match all.find? fun a => name a == found with
  | some a => .ok a
  | none => .error (.unknownVariant found (all.map name))

/-- One of several plain alternatives: its name, or an object with it and null. -/
def choice {α : Type} (name : α → String) (all : List α) : Reader α := fun text =>
  match skipBlanks text with
  | '"' :: _ => Decoder.andThen string (variant name all) text
  | '\x7b' :: rest => do
      let (a, rest) ← Decoder.andThen string (variant name all) rest
      let ((), rest) ← token ':' rest
      let ((), rest) ← null rest
      let ((), rest) ← token '\x7d' rest
      .ok (a, rest)
  | _ => .error .malformed

/--
One of several alternatives with a payload: an object with a single member.

A bare name is looked up too, but it lacks the payload.
-/
def tagged {κ α : Type} (name : κ → String) (all : List κ) (payload : κ → Reader α) :
    Reader α := fun text =>
  match skipBlanks text with
  | '"' :: _ => do
      let _ ← Decoder.andThen string (variant name all) text
      .error .malformed
  | '\x7b' :: rest => do
      let (kind, rest) ← Decoder.andThen string (variant name all) rest
      let ((), rest) ← token ':' rest
      let (a, rest) ← payload kind rest
      let ((), rest) ← token '\x7d' rest
      .ok (a, rest)
  | _ => .error .malformed

end Reader

/-! ## Records -/

/--
Names and readers of the fields of a record, in order.

The first index is the record as nested pairs, the second one has a slot for each
field, which is filled when the field has been read.
-/
inductive Fields : Type → Type → Type 1 where
  | done : Fields Unit Unit
  | field {α ρ σ : Type} (name : String) (value : Reader α) (rest : Fields ρ σ) :
      Fields (α × ρ) (Option α × σ)

namespace Fields

def noSlots : {ρ σ : Type} → Fields ρ σ → σ
  | _, _, done => ()
  | _, _, field _ _ rest => (none, rest.noSlots)

/--
Read what follows the key of a member.

A field that was read before is reported before its colon is read.
-/
def member : {ρ σ : Type} → Fields ρ σ → String → σ → Reader σ
  | _, _, done, _, _ => fun text => do
      let ((), rest) ← Reader.token ':' text
      let ((), rest) ← Skip.value rest
      .ok ((), rest)
  | _, _, field name value rest, key, (slot, slots) => fun text =>
      if key = name then
        match slot with
        | some _ => .error (.duplicateField name)
        | none => do
            let ((), text) ← Reader.token ':' text
            let (a, text) ← value text
            .ok ((some a, slots), text)
      else do
        let (slots, text) ← rest.member key slots text
        .ok ((slot, slots), text)

/-- The record of all slots; the first empty one is a missing field. -/
def collect : {ρ σ : Type} → Fields ρ σ → σ → Except Fault ρ
  | _, _, done, _ => .ok ()
  | _, _, field name _ rest, (slot, slots) =>
      match slot with
      | none => .error (.missingField name)
      | some a => do
          let more ← rest.collect slots
          .ok (a, more)

def membersFuel {ρ σ : Type} (fields : Fields ρ σ) : Nat → σ → Reader σ
  | 0, _, _ => .error .malformed
  | fuel + 1, slots, text => do
      let (key, rest) ← Reader.string text
      let (slots, rest) ← fields.member key slots rest
      match skipBlanks rest with
      | ',' :: rest => fields.membersFuel fuel slots rest
      | '\x7d' :: rest => .ok (slots, rest)
      | _ => .error .malformed

def items : {ρ σ : Type} → Fields ρ σ → (first : Bool) → Reader ρ
  | _, _, done, _ => fun text => do
      let ((), rest) ← Reader.token ']' text
      .ok ((), rest)
  | _, _, field _ value rest, first => fun text => do
      let ((), text) ← if first then .ok ((), text) else Reader.token ',' text
      let (a, text) ← value text
      let (more, text) ← rest.items false text
      .ok ((a, more), text)

def record {ρ σ : Type} (fields : Fields ρ σ) : Reader ρ := fun text =>
  match skipBlanks text with
  | '\x7b' :: rest => do
      let (slots, rest) ←
        match skipBlanks rest with
        | '\x7d' :: rest => .ok (fields.noSlots, rest)
        | rest => fields.membersFuel rest.length fields.noSlots rest
      let a ← fields.collect slots
      .ok (a, rest)
  | '[' :: rest => fields.items true rest
  | _ => .error .malformed

end Fields

end Json

end WeightedKripke
