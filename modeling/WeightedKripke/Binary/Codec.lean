import WeightedKripke.Cost
import WeightedKripke.Decoder
import WeightedKripke.Signal

/-!
# Binary forms of values

Words are fixed-width and little-endian, texts and lists carry their length in
front as a 64-bit word, and alternatives are numbered from zero by a 32-bit word.
Nothing is aligned or padded.  Reading takes exactly the bytes of a value off the
front and leaves the rest alone.
-/

namespace WeightedKripke

abbrev Bytes := List UInt8

class BinaryCodec (α : Type) where
  put : α → Bytes
  get : Decoder UInt8 α

namespace Binary

/-- The `width` lowest bytes of a number, least significant first. -/
def putWord : Nat → Nat → Bytes
  | 0, _ => []
  | width + 1, n => UInt8.ofNat (n % 256) :: putWord width (n / 256)

def getWord : Nat → Decoder UInt8 Nat
  | 0, bytes => .ok (0, bytes)
  | _ + 1, [] => .error .malformed
  | width + 1, byte :: rest => do
      let (high, rest) ← getWord width rest
      .ok (byte.toNat + 256 * high, rest)

@[simp] theorem putWord_length (width n : Nat) : (putWord width n).length = width := by
  induction width generalizing n with
  | zero => rfl
  | succ width ih => simp [putWord, ih]

theorem getWord_append {width n : Nat} (h : n < 256 ^ width) (tail : Bytes) :
    getWord width (putWord width n ++ tail) = .ok (n, tail) := by
  induction width generalizing n with
  | zero =>
      have hn : n = 0 := by simpa using h
      subst hn
      rfl
  | succ width ih =>
      have hhigh : n / 256 < 256 ^ width := by
        rw [Nat.pow_succ] at h
        exact (Nat.div_lt_iff_lt_mul (by decide)).2 h
      have hlow : (UInt8.ofNat (n % 256)).toNat = n % 256 := by
        rw [UInt8.toNat_ofNat']
        omega
      simp only [putWord, List.cons_append, getWord, ih hhigh, bind, Except.bind, hlow]
      rw [Nat.mod_add_div]

def getAlternative {α : Type} (all : List α) : Decoder UInt8 α :=
  Decoder.andThen (getWord 4) fun n =>
    match all[n]? with
    | some a => .ok a
    | none => .error .malformed

def getMany {α : Type} (item : Decoder UInt8 α) : Nat → Decoder UInt8 (List α)
  | 0, bytes => .ok ([], bytes)
  | count + 1, bytes => do
      let (a, rest) ← item bytes
      let (more, rest) ← getMany item count rest
      .ok (a :: more, rest)

/-- A text of UTF-8 bytes, behind their number. -/
def putText (s : String) : Bytes :=
  putWord 8 s.utf8ByteSize ++ s.toUTF8.data.toList

/-- A text of UTF-8 bytes; other bytes are a fault. -/
def getText : Decoder UInt8 String := fun bytes => do
  let (size, rest) ← getWord 8 bytes
  if size ≤ rest.length then
    match String.fromUTF8? ⟨(rest.take size).toArray⟩ with
    | some s => .ok (s, rest.drop size)
    | none => .error .malformed
  else
    .error .malformed

end Binary

instance : BinaryCodec UInt64 where
  put value := Binary.putWord 8 value.toNat
  get := Decoder.andThen (Binary.getWord 8) fun n => .ok (UInt64.ofNat n)

instance : BinaryCodec UInt32 where
  put value := Binary.putWord 4 value.toNat
  get := Decoder.andThen (Binary.getWord 4) fun n => .ok (UInt32.ofNat n)

/-- Signed words are written in two's complement. -/
instance : BinaryCodec Int64 where
  put value := BinaryCodec.put value.toUInt64
  get := Decoder.andThen BinaryCodec.get fun word : UInt64 => .ok word.toInt64

instance : BinaryCodec Int32 where
  put value := BinaryCodec.put value.toUInt32
  get := Decoder.andThen BinaryCodec.get fun word : UInt32 => .ok word.toInt32

/-- Truth values are the bytes zero and one. -/
instance : BinaryCodec Bool where
  put value := [if value then 1 else 0]
  get bytes :=
    match bytes with
    | [] => .error .malformed
    | byte :: rest =>
        if byte = 0 then
          .ok (false, rest)
        else if byte = 1 then
          .ok (true, rest)
        else
          .error .malformed

instance : BinaryCodec String where
  put := Binary.putText
  get := Binary.getText

instance {α : Type} [BinaryCodec α] : BinaryCodec (List α) where
  put items := Binary.putWord 8 items.length ++ items.flatMap BinaryCodec.put
  get bytes := do
    let (count, rest) ← Binary.getWord 8 bytes
    Binary.getMany BinaryCodec.get count rest

instance {α β : Type} [BinaryCodec α] [BinaryCodec β] : BinaryCodec (α × β) where
  put pair := BinaryCodec.put pair.1 ++ BinaryCodec.put pair.2
  get bytes := do
    let (a, rest) ← BinaryCodec.get bytes
    let (b, rest) ← BinaryCodec.get rest
    .ok ((a, b), rest)

instance : BinaryCodec Bit where
  put value := Binary.putWord 4 value.rank
  get := Binary.getAlternative Bit.all

instance : BinaryCodec Logic where
  put value := Binary.putWord 4 value.rank
  get := Binary.getAlternative Logic.all

instance : BinaryCodec SignalKind where
  put kind := Binary.putWord 4 kind.rank
  get := Binary.getAlternative SignalKind.all

namespace SignalLiteral

def putPayload : SignalLiteral → Bytes
  | bit value => BinaryCodec.put value
  | logic value => BinaryCodec.put value
  | integer value => BinaryCodec.put value
  | boolean value => BinaryCodec.put value

def getPayload : SignalKind → Decoder UInt8 SignalLiteral
  | .bit => Decoder.andThen BinaryCodec.get fun value => .ok (bit value)
  | .logic => Decoder.andThen BinaryCodec.get fun value => .ok (logic value)
  | .integer => Decoder.andThen BinaryCodec.get fun value => .ok (integer value)
  | .boolean => Decoder.andThen BinaryCodec.get fun value => .ok (boolean value)

instance : BinaryCodec SignalLiteral where
  put literal := BinaryCodec.put literal.kind ++ literal.putPayload
  get bytes := do
    let (kind, rest) ← BinaryCodec.get bytes
    getPayload kind rest

end SignalLiteral

instance : BinaryCodec Name where
  put name := BinaryCodec.put name.text
  get := Decoder.andThen BinaryCodec.get fun text => (Name.ofString text).mapError .name

/-- Quantities are normalised when they are read. -/
instance : BinaryCodec Quantity where
  put q := BinaryCodec.put (UInt64.ofNat q.coefficient, Int64.ofInt q.exponent)
  get := Decoder.andThen BinaryCodec.get fun (coefficient, exponent) =>
    (Quantity.ofWords coefficient exponent).mapError .quantity

instance : BinaryCodec Cost where
  put cost := BinaryCodec.put (cost.time, cost.energy)
  get := Decoder.andThen BinaryCodec.get fun (time, energy) => .ok ⟨time, energy⟩

end WeightedKripke
