import WeightedKripke.Binary.Codec
import WeightedKripke.Proofs.Quantity.Normal

/-!
# Binary forms are read back

`LawfulBinaryCodec` says that the bytes of a value are taken off the front of any
input that starts with them.  Lengths are written as 64-bit words, so the law is
about values that fit a 64-bit memory: every text and every list inside is shorter
than `2 ^ 64`.
-/

namespace WeightedKripke

/-- Types whose values can be held in a memory with 64-bit addresses. -/
class Memory (α : Type) where
  /-- Every text and every list inside a value is shorter than `2 ^ 64`. -/
  fits : α → Prop

class LawfulBinaryCodec (α : Type) [BinaryCodec α] [Memory α] : Prop where
  get_append (a : α) (h : Memory.fits a) (tail : Bytes) :
    BinaryCodec.get (BinaryCodec.put a ++ tail) = .ok (a, tail)

export LawfulBinaryCodec (get_append)

namespace Binary

theorem andThen_put {α β : Type} {decoder : Decoder UInt8 α} {a : α} {bytes tail : Bytes}
    (f : α → β) (h : decoder bytes = .ok (a, tail)) :
    decoder.andThen (fun a => .ok (f a)) bytes = .ok (f a, tail) :=
  Decoder.andThen_of_ok h rfl

theorem getMany_append {α : Type} [BinaryCodec α] {items : List α}
    (h : ∀ a, a ∈ items → ∀ tail : Bytes,
      BinaryCodec.get (BinaryCodec.put a ++ tail) = .ok (a, tail)) (tail : Bytes) :
    getMany BinaryCodec.get items.length (items.flatMap BinaryCodec.put ++ tail) =
      .ok (items, tail) := by
  induction items with
  | nil => rfl
  | cons a items ih =>
      have hmore := ih fun b hb => h b (List.mem_cons_of_mem a hb)
      simp only [List.length_cons, List.flatMap_cons, List.append_assoc, getMany,
        h a List.mem_cons_self, hmore, bind, Except.bind]

/-- A pair is read when its parts are, also when other values than these are read. -/
theorem getPair_append {α β : Type} [BinaryCodec α] [BinaryCodec β] (pair : α × β) {a : α}
    {b : β} {tail : Bytes}
    (hfirst : BinaryCodec.get (BinaryCodec.put pair.1 ++ (BinaryCodec.put pair.2 ++ tail)) =
      .ok (a, BinaryCodec.put pair.2 ++ tail))
    (hsecond : BinaryCodec.get (BinaryCodec.put pair.2 ++ tail) = .ok (b, tail)) :
    BinaryCodec.get (BinaryCodec.put pair ++ tail) = .ok ((a, b), tail) := by
  simp only [BinaryCodec.get, BinaryCodec.put, List.append_assoc, hfirst, hsecond, bind,
    Except.bind]

theorem getAlternative_append {α : Type} {all : List α} {rank : α → Nat}
    (hrank : ∀ a, all[rank a]? = some a) (hsmall : ∀ a, rank a < 256 ^ 4) (a : α)
    (tail : Bytes) :
    getAlternative all (putWord 4 (rank a) ++ tail) = .ok (a, tail) :=
  Decoder.andThen_of_ok (getWord_append (hsmall a) tail) (by rw [hrank a])

theorem getText_append (s : String) (h : s.utf8ByteSize < 2 ^ 64) (tail : Bytes) :
    getText (putText s ++ tail) = .ok (s, tail) := by
  have hlength : s.toByteArray.data.toList.length = s.utf8ByteSize := by
    rw [Array.length_toList]
    exact String.size_toByteArray
  have hsize := getWord_append (by omega : s.utf8ByteSize < 256 ^ 8)
    (s.toByteArray.data.toList ++ tail)
  have hdecode : String.fromUTF8? s.toByteArray = some s := by
    rw [String.fromUTF8?, dif_pos s.isValidUTF8]
    rfl
  have htake : (s.toByteArray.data.toList ++ tail).take s.utf8ByteSize =
      s.toByteArray.data.toList := List.take_left' hlength
  have hdrop : (s.toByteArray.data.toList ++ tail).drop s.utf8ByteSize = tail :=
    List.drop_left' hlength
  simp only [getText, putText, String.toUTF8_eq_toByteArray, List.append_assoc, hsize, bind,
    Except.bind, List.length_append, hlength, Nat.le_add_right, if_true, htake, hdrop,
    Array.toArray_toList, hdecode]

end Binary

open Binary

/-! ## Words and texts -/

instance : Memory Bool := ⟨fun _ => True⟩

instance : Memory UInt64 := ⟨fun _ => True⟩

instance : Memory UInt32 := ⟨fun _ => True⟩

instance : Memory Int64 := ⟨fun _ => True⟩

instance : Memory Int32 := ⟨fun _ => True⟩

instance : Memory String := ⟨fun s => s.utf8ByteSize < 2 ^ 64⟩

instance : LawfulBinaryCodec Bool where
  get_append value _ tail := by cases value <;> rfl

instance : LawfulBinaryCodec UInt64 where
  get_append value _ tail :=
    Decoder.andThen_of_ok (getWord_append value.toNat_lt tail) (by rw [UInt64.ofNat_toNat])

instance : LawfulBinaryCodec UInt32 where
  get_append value _ tail :=
    Decoder.andThen_of_ok (getWord_append value.toNat_lt tail) (by rw [UInt32.ofNat_toNat])

instance : LawfulBinaryCodec Int64 where
  get_append value _ tail :=
    Decoder.andThen_of_ok (get_append value.toUInt64 trivial tail)
      (by rw [Int64.toInt64_toUInt64])

instance : LawfulBinaryCodec Int32 where
  get_append value _ tail :=
    Decoder.andThen_of_ok (get_append value.toUInt32 trivial tail)
      (by rw [Int32.toInt32_toUInt32])

instance : LawfulBinaryCodec String where
  get_append s h tail := getText_append s h tail

/-! ## Lists and pairs -/

section Containers

variable {α β : Type} [Memory α] [Memory β]

instance : Memory (List α) :=
  ⟨fun items => items.length < 2 ^ 64 ∧ ∀ a, a ∈ items → Memory.fits a⟩

instance : Memory (α × β) := ⟨fun pair => Memory.fits pair.1 ∧ Memory.fits pair.2⟩

variable [BinaryCodec α] [LawfulBinaryCodec α] [BinaryCodec β] [LawfulBinaryCodec β]

instance : LawfulBinaryCodec (List α) where
  get_append items h tail := by
    have hlength := h.1
    have hcount := getWord_append (by omega : items.length < 256 ^ 8)
      (items.flatMap BinaryCodec.put ++ tail)
    have hitems := getMany_append (fun a ha => get_append a (h.2 a ha)) tail
    simp only [BinaryCodec.get, BinaryCodec.put, List.append_assoc, hcount, bind,
      Except.bind]
    exact hitems

instance : LawfulBinaryCodec (α × β) where
  get_append pair h tail :=
    getPair_append pair (get_append pair.1 h.1 _) (get_append pair.2 h.2 tail)

end Containers

/-! ## Signal literals -/

instance : Memory Bit := ⟨fun _ => True⟩

instance : Memory Logic := ⟨fun _ => True⟩

instance : Memory SignalKind := ⟨fun _ => True⟩

instance : Memory SignalLiteral := ⟨fun _ => True⟩

instance : LawfulBinaryCodec Bit where
  get_append value _ tail :=
    getAlternative_append Bit.all_rank (by rintro (_ | _) <;> decide) value tail

instance : LawfulBinaryCodec Logic where
  get_append value _ tail :=
    getAlternative_append Logic.all_rank (by rintro (_ | _) <;> decide) value tail

instance : LawfulBinaryCodec SignalKind where
  get_append kind _ tail :=
    getAlternative_append SignalKind.all_rank (by rintro (_ | _) <;> decide) kind tail

theorem SignalLiteral.getPayload_append (literal : SignalLiteral) (tail : Bytes) :
    getPayload literal.kind (literal.putPayload ++ tail) = .ok (literal, tail) := by
  cases literal with
  | bit value => exact andThen_put bit (get_append value trivial tail)
  | logic value => exact andThen_put logic (get_append value trivial tail)
  | integer value => exact andThen_put integer (get_append value trivial tail)
  | boolean value => exact andThen_put boolean (get_append value trivial tail)

instance : LawfulBinaryCodec SignalLiteral where
  get_append literal _ tail := by
    have hkind := get_append literal.kind trivial (literal.putPayload ++ tail)
    simp only [BinaryCodec.get, BinaryCodec.put, List.append_assoc] at hkind ⊢
    simp only [hkind, bind, Except.bind, literal.getPayload_append]

/-! ## Names, quantities and costs -/

instance : Memory Name := ⟨fun name => Memory.fits name.text⟩

instance : Memory Quantity := ⟨fun _ => True⟩

instance : Memory Cost := ⟨fun _ => True⟩

instance : LawfulBinaryCodec Name where
  get_append name h tail :=
    Decoder.andThen_of_ok (get_append name.text h tail)
      (by rw [Name.ofString_text]; rfl)

instance : LawfulBinaryCodec Quantity where
  get_append q _ tail :=
    Decoder.andThen_of_ok
      (get_append (UInt64.ofNat q.coefficient, Int64.ofInt q.exponent)
        (And.intro trivial trivial) tail)
      (by simp only [Quantity.ofWords_self]; rfl)

instance : LawfulBinaryCodec Cost where
  get_append cost _ tail :=
    andThen_put (fun pair : Quantity × Quantity => Cost.mk pair.1 pair.2)
      (get_append (cost.time, cost.energy) (And.intro trivial trivial) tail)

end WeightedKripke
