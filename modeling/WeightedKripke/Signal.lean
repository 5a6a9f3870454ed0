import WeightedKripke.Property

/-!
# Signal literals

Values of the signals of a hardware state machine: two-state bits, nine-state
logic levels, integers and truth values.  Literals of different kinds are ordered
by kind, literals of one kind by their payload.
-/

namespace WeightedKripke

inductive Bit where
  | low
  | high
deriving DecidableEq

inductive Logic where
  | uninitialized
  | unknown
  | low
  | high
  | highImpedance
  | weakSignal
  | weakLow
  | weakHigh
  | dontCare
deriving DecidableEq

namespace Bit

def all : List Bit := [low, high]

def rank : Bit → Nat
  | low => 0
  | high => 1

def name : Bit → String
  | low => "low"
  | high => "high"

def symbol : Bit → Char
  | low => '0'
  | high => '1'

theorem all_rank (b : Bit) : all[b.rank]? = some b := by
  cases b <;> rfl

instance : Ord Bit := ⟨fun a b => compare a.rank b.rank⟩

end Bit

namespace Logic

def all : List Logic :=
  [uninitialized, unknown, low, high, highImpedance, weakSignal, weakLow, weakHigh, dontCare]

def rank : Logic → Nat
  | uninitialized => 0
  | unknown => 1
  | low => 2
  | high => 3
  | highImpedance => 4
  | weakSignal => 5
  | weakLow => 6
  | weakHigh => 7
  | dontCare => 8

def name : Logic → String
  | uninitialized => "uninitialized"
  | unknown => "unknown"
  | low => "low"
  | high => "high"
  | highImpedance => "high_impedance"
  | weakSignal => "weak_signal"
  | weakLow => "weak_low"
  | weakHigh => "weak_high"
  | dontCare => "dont_care"

def symbol : Logic → Char
  | uninitialized => 'U'
  | unknown => 'X'
  | low => '0'
  | high => '1'
  | highImpedance => 'Z'
  | weakSignal => 'W'
  | weakLow => 'L'
  | weakHigh => 'H'
  | dontCare => '-'

theorem all_rank (l : Logic) : all[l.rank]? = some l := by
  cases l <;> rfl

instance : Ord Logic := ⟨fun a b => compare a.rank b.rank⟩

end Logic

/-- A literal held by a signal or variable of a hardware state machine. -/
inductive SignalLiteral where
  | bit (value : Bit)
  | logic (value : Logic)
  | integer (value : Int64)
  | boolean (value : Bool)
deriving DecidableEq

inductive SignalKind where
  | bit
  | logic
  | integer
  | boolean
deriving DecidableEq

namespace SignalKind

def all : List SignalKind := [bit, logic, integer, boolean]

def rank : SignalKind → Nat
  | bit => 0
  | logic => 1
  | integer => 2
  | boolean => 3

def name : SignalKind → String
  | bit => "bit"
  | logic => "logic"
  | integer => "integer"
  | boolean => "boolean"

theorem all_rank (k : SignalKind) : all[k.rank]? = some k := by
  cases k <;> rfl

end SignalKind

namespace SignalLiteral

def kind : SignalLiteral → SignalKind
  | bit _ => .bit
  | logic _ => .logic
  | integer _ => .integer
  | boolean _ => .boolean

def kindRank (literal : SignalLiteral) : Nat :=
  literal.kind.rank

/-- An integer that orders the literals of one kind. -/
def payloadRank : SignalLiteral → Int
  | bit value => value.rank
  | logic value => value.rank
  | integer value => value.toInt
  | boolean value => value.toNat

protected def compare : SignalLiteral → SignalLiteral → Ordering :=
  compareLex (compareOn kindRank) (compareOn payloadRank)

instance : Ord SignalLiteral := ⟨SignalLiteral.compare⟩

instance : Std.TransOrd SignalLiteral :=
  inferInstanceAs
    (Std.TransCmp (compareLex (compareOn kindRank) (compareOn payloadRank)))

theorem eq_of_ranks {a b : SignalLiteral} (hkind : a.kindRank = b.kindRank)
    (hpayload : a.payloadRank = b.payloadRank) : a = b := by
  cases a <;> cases b <;> simp [kindRank, kind, SignalKind.rank] at hkind
  case bit.bit x y => cases x <;> cases y <;> simp_all [payloadRank, Bit.rank]
  case logic.logic x y => cases x <;> cases y <;> simp_all [payloadRank, Logic.rank]
  case integer.integer x y => exact congrArg integer (Int64.toInt_inj.1 hpayload)
  case boolean.boolean x y => cases x <;> cases y <;> simp_all [payloadRank]

instance : Std.LawfulEqOrd SignalLiteral where
  eq_of_compare {a b} h := by
    have h : (compareLex (compareOn kindRank) (compareOn payloadRank)) a b = .eq := h
    rw [compareLex, Ordering.then_eq_eq] at h
    exact eq_of_ranks (Std.LawfulEqCmp.eq_of_compare (show compare _ _ = _ from h.1))
      (Std.LawfulEqCmp.eq_of_compare (show compare _ _ = _ from h.2))

/-- Bits and logic levels show their symbol in single quotes. -/
protected def label : SignalLiteral → String
  | bit value => String.ofList ['\'', value.symbol, '\'']
  | logic value => String.ofList ['\'', value.symbol, '\'']
  | integer value => PropertyValue.label value
  | boolean value => PropertyValue.label value

instance : PropertyValue SignalLiteral where
  label := SignalLiteral.label

end SignalLiteral

end WeightedKripke
