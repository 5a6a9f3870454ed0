import WeightedKripke.Cost

/-!
# Operators and totals

Operators return no errors.  Where a checked operation fails, the operator breaks off the
computation with the text of the error.  Operators on costs are made of those on their
components, the time first, and totals are added up with operators from zero.
-/

namespace WeightedKripke

/-- What a computation leaves that was broken off: the text that it shows. -/
structure Panic where
  message : String
deriving DecidableEq

/-- What a checked operation returns; an error breaks off the computation. -/
def orPanic {α : Type} (outcome : Except QuantityError α) : Except Panic α :=
  outcome.mapError fun e => ⟨e.message⟩

/-- A compound assignment: the variable takes what the operator makes of it. -/
def assign {α : Type} (operator : α → α → Except Panic α) (right : α) :
    StateT α (Except Panic) Unit := do
  let left ← get
  let result ← operator left right
  set result

section Outcomes

variable {α β ε δ : Type}

theorem mapError_eq_ok_iff {outcome : Except ε α} {f : ε → δ} {a : α} :
    outcome.mapError f = .ok a ↔ outcome = .ok a := by
  cases outcome with
  | error e => exact iff_of_false (fun h => nomatch h) fun h => nomatch h
  | ok b => exact ⟨fun h => congrArg Except.ok (Except.ok.inj h), congrArg (Except.mapError f)⟩

theorem orPanic_eq_ok_iff {outcome : Except QuantityError α} {a : α} :
    orPanic outcome = .ok a ↔ outcome = .ok a :=
  mapError_eq_ok_iff

theorem orPanic_eq_error_iff {outcome : Except QuantityError α} {p : Panic} :
    orPanic outcome = .error p ↔ ∃ e, outcome = .error e ∧ p = ⟨e.message⟩ := by
  cases outcome with
  | error e =>
      constructor
      · intro h
        exact ⟨e, rfl, (Except.error.inj h).symm⟩
      · rintro ⟨_, ⟨⟩, rfl⟩
        rfl
  | ok b => exact iff_of_false (fun h => nomatch h) fun ⟨_, h, _⟩ => nomatch h

/-- A computation that is broken off takes no further steps, as one that returns an error. -/
theorem orPanic_bind (outcome : Except QuantityError α) (next : α → Except QuantityError β) :
    orPanic (outcome >>= next) = orPanic outcome >>= fun a => orPanic (next a) := by
  cases outcome <;> rfl

theorem foldlM_orPanic (step : β → α → Except QuantityError β) (items : List α) (start : β) :
    items.foldlM (fun sum item => orPanic (step sum item)) start =
      orPanic (items.foldlM step start) := by
  induction items generalizing start with
  | nil => rfl
  | cons item items ih =>
      rw [List.foldlM_cons, List.foldlM_cons, orPanic_bind]
      exact congrArg _ (funext ih)

theorem run_assign (operator : α → α → Except Panic α) (left right : α) :
    (assign operator right).run left =
      (fun result => ((), result)) <$> operator left right := by
  simp [assign]

end Outcomes

namespace Quantity

variable {a b q : Quantity}

/-- The quantity of two words that are known to be in range. -/
def new (coefficient : UInt64) (exponent : Int64) : Except Panic Quantity :=
  orPanic (ofWords coefficient exponent)

def plus (a b : Quantity) : Except Panic Quantity :=
  orPanic (a.add b)

def minus (a b : Quantity) : Except Panic Quantity :=
  orPanic (a.sub b)

def times (a b : Quantity) : Except Panic Quantity :=
  orPanic (a.mul b)

def assignPlus : Quantity → StateT Quantity (Except Panic) Unit :=
  assign plus

def assignMinus : Quantity → StateT Quantity (Except Panic) Unit :=
  assign minus

def assignTimes : Quantity → StateT Quantity (Except Panic) Unit :=
  assign times

/-- The total of a list, added up from the left to zero. -/
def total (items : List Quantity) : Except Panic Quantity :=
  items.foldlM plus zero

theorem new_eq_ok_iff {coefficient : UInt64} {exponent : Int64} :
    new coefficient exponent = .ok q ↔ ofWords coefficient exponent = .ok q :=
  orPanic_eq_ok_iff

theorem plus_eq_ok_iff : a.plus b = .ok q ↔ a.add b = .ok q :=
  orPanic_eq_ok_iff

theorem minus_eq_ok_iff : a.minus b = .ok q ↔ a.sub b = .ok q :=
  orPanic_eq_ok_iff

theorem times_eq_ok_iff : a.times b = .ok q ↔ a.mul b = .ok q :=
  orPanic_eq_ok_iff

/-- A total is what checked additions return, or shows the text of their error. -/
theorem total_eq (items : List Quantity) : total items = orPanic (items.foldlM add zero) :=
  foldlM_orPanic add items zero

theorem total_eq_ok_iff {items : List Quantity} :
    total items = .ok q ↔ items.foldlM add zero = .ok q := by
  rw [total_eq, orPanic_eq_ok_iff]

end Quantity

namespace Cost

def plus (a b : Cost) : Except Panic Cost := do
  let time ← a.time.plus b.time
  let energy ← a.energy.plus b.energy
  return ⟨time, energy⟩

def minus (a b : Cost) : Except Panic Cost := do
  let time ← a.time.minus b.time
  let energy ← a.energy.minus b.energy
  return ⟨time, energy⟩

def total (items : List Cost) : Except Panic Cost :=
  items.foldlM plus zero

/-- The total of costs that are referred to; each one is read when it is added. -/
def totalOf {ι : Type} (read : ι → Cost) (references : List ι) : Except Panic Cost :=
  references.foldlM (fun sum reference => sum.plus (read reference)) zero

/-- Components that are computed one after the other are broken off by the same errors. -/
theorem orPanic_components (time energy : Except QuantityError Quantity) :
    orPanic (do
      let t ← time
      let e ← energy
      return (⟨t, e⟩ : Cost)) = (do
      let t ← orPanic time
      let e ← orPanic energy
      return ⟨t, e⟩) := by
  rw [orPanic_bind]
  refine congrArg _ (funext fun t => ?_)
  rw [orPanic_bind]
  rfl

theorem plus_eq (a b : Cost) : a.plus b = orPanic (a.add b) :=
  (orPanic_components (a.time.add b.time) (a.energy.add b.energy)).symm

theorem minus_eq (a b : Cost) : a.minus b = orPanic (a.sub b) :=
  (orPanic_components (a.time.sub b.time) (a.energy.sub b.energy)).symm

theorem total_eq (items : List Cost) : total items = orPanic (items.foldlM add zero) := by
  have hplus : plus = fun a b => orPanic (add a b) := funext fun a => funext (plus_eq a)
  rw [total, hplus, foldlM_orPanic]

theorem totalOf_eq {ι : Type} (read : ι → Cost) (references : List ι) :
    totalOf read references = total (references.map read) := by
  rw [totalOf, total, List.foldlM_map]

end Cost

end WeightedKripke
