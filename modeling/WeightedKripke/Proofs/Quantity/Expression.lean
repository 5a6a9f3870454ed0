import WeightedKripke.Binary.Codec
import WeightedKripke.Json.Codec
import WeightedKripke.Proofs.Quantity.Arithmetic

/-!
# Computations with quantities

An expression combines quantities that are given, made from numbers or decoded, by
sums, differences and products: with checked operations, with operators or with
assignments.  Evaluation normalises every intermediate result and can fail at every
step; where it does not fail it returns the exact value of the expression, so neither
the way in which an expression is written nor the kind of its operations matters.
-/

namespace WeightedKripke

namespace Quantity

variable {a b q : Quantity}

/-! ## Operations and the ways of calling them -/

inductive Operation where
  | add
  | sub
  | mul

namespace Operation

variable {operation : Operation}

def checked : Operation → Quantity → Quantity → Except QuantityError Quantity
  | add => Quantity.add
  | sub => Quantity.sub
  | mul => Quantity.mul

def operator : Operation → Quantity → Quantity → Except Panic Quantity
  | add => plus
  | sub => minus
  | mul => times

def assignment : Operation → Quantity → StateT Quantity (Except Panic) Unit
  | add => assignPlus
  | sub => assignMinus
  | mul => assignTimes

def onValues : Operation → Rat → Rat → Rat
  | add, x, y => x + y
  | sub, x, y => x - y
  | mul, x, y => x * y

theorem operator_eq_ok_iff : operation.operator a b = .ok q ↔ operation.checked a b = .ok q := by
  cases operation with
  | add => exact plus_eq_ok_iff
  | sub => exact minus_eq_ok_iff
  | mul => exact times_eq_ok_iff

theorem assignment_eq : operation.assignment = assign operation.operator := by
  cases operation <;> rfl

theorem value_of_checked (h : operation.checked a b = .ok q) :
    q.value = operation.onValues a.value b.value := by
  cases operation with
  | add => exact value_of_add h
  | sub => exact value_of_sub h
  | mul => exact value_of_mul h

end Operation

inductive Failure where
  | refused (error : QuantityError)
  | undecodable (fault : Fault)
  | brokenOff (panic : Panic)

inductive Form where
  | checked
  | operator
  | assignment

/-- An assignment is made to a variable that holds the left operand. -/
def Form.apply (operation : Operation) (a b : Quantity) : Form → Except Failure Quantity
  | checked => (operation.checked a b).mapError .refused
  | operator => (operation.operator a b).mapError .brokenOff
  | assignment => (Prod.snd <$> (operation.assignment b).run a).mapError .brokenOff

/-- However an operation is called, it returns what the checked operation returns. -/
theorem Form.apply_eq_ok_iff {form : Form} {operation : Operation} :
    form.apply operation a b = .ok q ↔ operation.checked a b = .ok q := by
  cases form with
  | checked => exact mapError_eq_ok_iff
  | operator => exact mapError_eq_ok_iff.trans Operation.operator_eq_ok_iff
  | assignment =>
      simp only [apply, Operation.assignment_eq, run_assign, Functor.map_map, id_map']
      exact mapError_eq_ok_iff.trans Operation.operator_eq_ok_iff

/-! ## Quantities that are not computed from others -/

/-- The numbers that a JSON text holds, before they are normalised. -/
def wordsOfJson (text : String) : Option (UInt64 × Int64) :=
  match jsonFields.record text.toList with
  | .ok ((coefficient, exponent, ()), _) => some (coefficient, exponent)
  | .error _ => none

def wordsOfBytes (bytes : Bytes) : Option (UInt64 × Int64) :=
  match BinaryCodec.get bytes with
  | .ok (words, _) => some words
  | .error _ => none

def valueOfWords : Option (UInt64 × Int64) → Rat
  | some (coefficient, exponent) => Decimal.exact coefficient.toNat exponent.toInt
  | none => 0

theorem value_of_decode {text : String} (h : JsonCodec.decode text = .ok q) :
    q.value = valueOfWords (wordsOfJson text) := by
  obtain ⟨rest, hread⟩ := JsonCodec.exists_of_decode h
  obtain ⟨⟨coefficient, exponent, _⟩, hrecord, hwords⟩ := Decoder.andThen_eq_ok hread
  rw [wordsOfJson, hrecord]
  exact value_of_ofWords (mapError_eq_ok_iff.1 hwords)

theorem value_of_get {bytes rest : Bytes} (h : BinaryCodec.get bytes = .ok (q, rest)) :
    q.value = valueOfWords (wordsOfBytes bytes) := by
  obtain ⟨⟨coefficient, exponent⟩, hread, hwords⟩ := Decoder.andThen_eq_ok h
  rw [wordsOfBytes, hread]
  exact value_of_ofWords (mapError_eq_ok_iff.1 hwords)

inductive Source where
  | zero
  /-- A quantity that is there, such as one of a structure that was decoded. -/
  | given (q : Quantity)
  | words (coefficient : UInt64) (exponent : Int64)
  /-- Two words that are known to be in range. -/
  | new (coefficient : UInt64) (exponent : Int64)
  | unsigned (n : UInt64)
  | unsignedShort (n : UInt32)
  | signed (i : Int64)
  | double (x : Decimal.Binary64)
  | json (text : String)
  | bytes (encoded : Bytes)

namespace Source

variable {source : Source}

def eval : Source → Except Failure Quantity
  | zero => .ok Quantity.zero
  | given q => .ok q
  | words coefficient exponent => (ofWords coefficient exponent).mapError .refused
  | new coefficient exponent => (Quantity.new coefficient exponent).mapError .brokenOff
  | unsigned n => .ok (ofUInt64 n)
  | unsignedShort n => .ok (ofUInt32 n)
  | signed i => (ofInt64 i).mapError .refused
  | double x => (ofBinary64 x).mapError .refused
  | json text => (JsonCodec.decode text).mapError .undecodable
  | bytes encoded => (Prod.fst <$> BinaryCodec.get encoded).mapError .undecodable

def value : Source → Rat
  | zero => 0
  | given q => q.value
  | words coefficient exponent => Decimal.exact coefficient.toNat exponent.toInt
  | new coefficient exponent => Decimal.exact coefficient.toNat exponent.toInt
  | unsigned n => n.toNat
  | unsignedShort n => n.toNat
  | signed i => i.toInt
  | double x => x.decimalValue
  | json text => valueOfWords (wordsOfJson text)
  | bytes encoded => valueOfWords (wordsOfBytes encoded)

def toChecked : Source → Source
  | new coefficient exponent => words coefficient exponent
  | source => source

theorem value_of_eval (h : source.eval = .ok q) : q.value = source.value := by
  cases source with
  | zero =>
      cases h
      exact value_zero
  | given p =>
      cases h
      rfl
  | words coefficient exponent => exact value_of_ofWords (mapError_eq_ok_iff.1 h)
  | new coefficient exponent =>
      exact value_of_ofWords (new_eq_ok_iff.1 (mapError_eq_ok_iff.1 h))
  | unsigned n =>
      cases h
      exact value_ofUInt64 n
  | unsignedShort n =>
      cases h
      exact value_ofUInt32 n
  | signed i => exact value_of_ofInt64 (mapError_eq_ok_iff.1 h)
  | double x => exact value_of_ofBinary64 (mapError_eq_ok_iff.1 h)
  | json text => exact value_of_decode (mapError_eq_ok_iff.1 h)
  | bytes encoded =>
      obtain ⟨⟨p, rest⟩, hread, hp⟩ := bind_eq_ok_iff.1 (mapError_eq_ok_iff.1 h)
      cases hp
      exact value_of_get hread

theorem eval_eq_ok_iff_toChecked : source.eval = .ok q ↔ source.toChecked.eval = .ok q := by
  cases source with
  | new coefficient exponent =>
      exact (mapError_eq_ok_iff.trans new_eq_ok_iff).trans mapError_eq_ok_iff.symm
  | _ => exact Iff.rfl

end Source

/-! ## Expressions -/

inductive Expression where
  | source (origin : Source)
  | operation (form : Form) (kind : Operation) (left right : Expression)
  | sum (items : List Expression)

namespace Expression

variable {e left right item : Expression} {items rest : List Expression}
  {quantities : List Quantity}

mutual

/-- Compute the quantity.  The items of a sum are there before they are added up. -/
def eval : Expression → Except Failure Quantity
  | source origin => origin.eval
  | operation form kind left right => do
      let a ← left.eval
      let b ← right.eval
      form.apply kind a b
  | sum items => do
      let quantities ← evalAll items
      (total quantities).mapError .brokenOff

def evalAll : List Expression → Except Failure (List Quantity)
  | [] => .ok []
  | item :: rest => do
      let q ← item.eval
      let more ← evalAll rest
      .ok (q :: more)

end

mutual

def value : Expression → Rat
  | source origin => origin.value
  | operation _ kind left right => kind.onValues left.value right.value
  | sum items => valueOfAll items

def valueOfAll : List Expression → Rat
  | [] => 0
  | item :: rest => item.value + valueOfAll rest

end

mutual

/-- The same computation with checked operations only; a sum is added from the left to zero. -/
def toChecked : Expression → Expression
  | source origin => source origin.toChecked
  | operation _ kind left right => operation .checked kind left.toChecked right.toChecked
  | sum items => (toCheckedAll items).foldl (operation .checked .add) (source .zero)

def toCheckedAll : List Expression → List Expression
  | [] => []
  | item :: rest => item.toChecked :: toCheckedAll rest

end

theorem eval_operation_eq_ok_iff {form : Form} {kind : Operation} :
    (operation form kind left right).eval = .ok q ↔
      ∃ a b, left.eval = .ok a ∧ right.eval = .ok b ∧ kind.checked a b = .ok q := by
  rw [eval]
  simp only [bind_eq_ok_iff, Form.apply_eq_ok_iff, exists_and_left]

theorem eval_sum_eq_ok_iff : (sum items).eval = .ok q ↔
    ∃ quantities, evalAll items = .ok quantities ∧ total quantities = .ok q := by
  rw [eval]
  simp only [bind_eq_ok_iff, mapError_eq_ok_iff]

theorem evalAll_cons_eq_ok_iff : evalAll (item :: rest) = .ok quantities ↔
    ∃ q more, item.eval = .ok q ∧ evalAll rest = .ok more ∧ q :: more = quantities := by
  rw [evalAll]
  simp only [bind_eq_ok_iff, Except.ok.injEq, exists_and_left]

/-! ## The value of the result -/

mutual

theorem value_of_eval {e : Expression} {q : Quantity} (h : e.eval = .ok q) :
    q.value = e.value := by
  cases e with
  | source origin =>
      rw [eval] at h
      rw [value, Source.value_of_eval h]
  | operation form kind left right =>
      obtain ⟨a, b, ha, hb, h⟩ := eval_operation_eq_ok_iff.1 h
      rw [value, Operation.value_of_checked h, value_of_eval ha, value_of_eval hb]
  | sum items =>
      obtain ⟨quantities, hquantities, h⟩ := eval_sum_eq_ok_iff.1 h
      rw [value, value_of_total h, value_of_evalAll hquantities]

theorem value_of_evalAll {items : List Expression} {quantities : List Quantity}
    (h : evalAll items = .ok quantities) :
    (quantities.map Quantity.value).sum = valueOfAll items := by
  cases items with
  | nil =>
      cases h
      rw [valueOfAll]
      rfl
  | cons item rest =>
      obtain ⟨q, more, hq, hmore, rfl⟩ := evalAll_cons_eq_ok_iff.1 h
      rw [List.map_cons, List.sum_cons, valueOfAll, value_of_eval hq, value_of_evalAll hmore]

end

/-! ## Checked operations in place of the others -/

/-- Checked additions from the left add the items one after the other. -/
theorem eval_foldl_add_eq_ok_iff : (items.foldl (operation .checked .add) e).eval = .ok q ↔
    ∃ start quantities, e.eval = .ok start ∧ evalAll items = .ok quantities ∧
      quantities.foldlM add start = .ok q := by
  induction items generalizing e with
  | nil =>
      constructor
      · intro h
        exact ⟨q, [], h, rfl, rfl⟩
      · intro h
        obtain ⟨start, quantities, hstart, hquantities, h⟩ := h
        cases hquantities
        cases h
        exact hstart
  | cons item rest ih =>
      rw [List.foldl_cons, ih]
      constructor
      · intro h
        obtain ⟨next, more, hnext, hmore, h⟩ := h
        obtain ⟨start, p, hstart, hp, hadd⟩ := eval_operation_eq_ok_iff.1 hnext
        refine ⟨start, p :: more, hstart, evalAll_cons_eq_ok_iff.2 ⟨p, more, hp, hmore, rfl⟩, ?_⟩
        exact (congrArg (· >>= fun next => more.foldlM add next) hadd).trans h
      · intro h
        obtain ⟨start, quantities, hstart, hquantities, h⟩ := h
        obtain ⟨p, more, hp, hmore, rfl⟩ := evalAll_cons_eq_ok_iff.1 hquantities
        obtain ⟨next, hadd, h⟩ := bind_eq_ok_iff.1 h
        exact ⟨next, more, eval_operation_eq_ok_iff.2 ⟨start, p, hstart, hp, hadd⟩, hmore, h⟩

mutual

/-- Whatever its forms are, an expression computes what checked operations compute. -/
theorem eval_eq_ok_iff_toChecked (e : Expression) (q : Quantity) :
    e.eval = .ok q ↔ e.toChecked.eval = .ok q := by
  cases e with
  | source origin =>
      rw [toChecked, eval, eval, Source.eval_eq_ok_iff_toChecked]
  | operation form kind left right =>
      rw [toChecked, eval_operation_eq_ok_iff, eval_operation_eq_ok_iff]
      simp only [eval_eq_ok_iff_toChecked left, eval_eq_ok_iff_toChecked right]
  | sum items =>
      have hzero : (source .zero).eval = .ok Quantity.zero := by
        rw [eval, Source.eval]
      rw [toChecked, eval_sum_eq_ok_iff, eval_foldl_add_eq_ok_iff]
      simp only [evalAll_eq_ok_iff_toChecked items, total_eq_ok_iff]
      constructor
      · intro h
        obtain ⟨quantities, hquantities, h⟩ := h
        exact ⟨Quantity.zero, quantities, hzero, hquantities, h⟩
      · intro h
        obtain ⟨start, quantities, hstart, hquantities, h⟩ := h
        cases hzero.symm.trans hstart
        exact ⟨quantities, hquantities, h⟩

theorem evalAll_eq_ok_iff_toChecked (items : List Expression) (quantities : List Quantity) :
    evalAll items = .ok quantities ↔ evalAll (toCheckedAll items) = .ok quantities := by
  cases items with
  | nil => rw [toCheckedAll]
  | cons item rest =>
      rw [toCheckedAll, evalAll_cons_eq_ok_iff, evalAll_cons_eq_ok_iff]
      simp only [eval_eq_ok_iff_toChecked item, evalAll_eq_ok_iff_toChecked rest]

end

/--
Operators, assignments and totals compute what the checked operations compute, and
quantities that are computed are normal, exact and canonical.

Two of them are equal exactly when their values are, and exactly when the values of
the expressions are, however these are written.
-/
theorem eval_exact (e : Expression) :
    (∀ p, e.eval = .ok p ↔ e.toChecked.eval = .ok p) ∧
      ∀ p, e.eval = .ok p → IsNormal p.coefficient p.exponent ∧ p.value = e.value ∧
        ∀ (f : Expression) (q : Quantity), f.eval = .ok q →
          (p = q ↔ p.value = q.value) ∧ (p = q ↔ e.value = f.value) := by
  refine ⟨eval_eq_ok_iff_toChecked e, ?_⟩
  intro p hp
  have hvalue := value_of_eval hp
  refine ⟨p.normal, hvalue, ?_⟩
  intro f q hq
  refine ⟨value_inj.symm, ?_⟩
  rw [← hvalue, ← value_of_eval hq, value_inj]

/-- `(2 - 0.3) * 5`, with an assignment and an operator. -/
def factored : Expression :=
  operation .operator .mul
    (operation .assignment .sub (source (.new 2 0)) (source (.words 3 (-1))))
    (source (.unsigned 5))

/-- `(2 + 2 + 2 + 2 + 2) - 0.3 * 5`, with a total and checked operations. -/
def distributed : Expression :=
  operation .checked .sub (sum (List.replicate 5 (source (.words 2 0))))
    (operation .checked .mul (source (.words 3 (-1))) (source (.unsigned 5)))

theorem eval_factored_eq_distributed :
    ∃ p q, factored.eval = .ok p ∧ distributed.eval = .ok q ∧ p = q ∧
      p.value = factored.value ∧ factored.toChecked.eval = .ok p := by
  obtain ⟨p, hp⟩ : ∃ p, factored.eval = .ok p := ⟨_, rfl⟩
  obtain ⟨q, hq⟩ : ∃ q, distributed.eval = .ok q := ⟨_, rfl⟩
  obtain ⟨hchecked, hexact⟩ := eval_exact factored
  obtain ⟨-, hvalue, hequal⟩ := hexact p hp
  have hsame : factored.value = distributed.value := by
    simp only [factored, distributed, value, valueOfAll, Source.value, Operation.onValues,
      List.replicate]
    rw [show (5 : UInt64).toNat = 5 from rfl]
    push_cast
    ring
  exact ⟨p, q, hp, hq, (hequal _ q hq).2.2 hsame, hvalue, (hchecked p).1 hp⟩

end Expression

end Quantity

end WeightedKripke
