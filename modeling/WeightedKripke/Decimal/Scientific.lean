import WeightedKripke.Decimal.Digits

/-!
# Scientific notation

A pair of a natural coefficient and a power of ten is shown as `m×10ᵖ`, with one
digit before the point and at most three after it.  The value is rounded to
four significant digits, halves to the even neighbour; trailing zeros of the
fraction are dropped and the power is written in superscript digits.
-/

namespace WeightedKripke

namespace Decimal

def shownDigits : Nat := 4

def divHalfEven (n d : Nat) : Nat :=
  if d < 2 * (n % d) ∨ (2 * (n % d) = d ∧ n / d % 2 = 1) then n / d + 1 else n / d

/-- A leading digit, the digits after the point, and a power of ten. -/
structure Scientific where
  whole : Char
  fraction : List Char
  power : Int
deriving DecidableEq

namespace Scientific

def dropTrailingZeros (digits : List Char) : List Char :=
  (digits.reverse.dropWhile (· == '0')).reverse

/-- The power of ten of the leading digit of `coefficient × 10 ^ exponent`. -/
def leadingPower (coefficient : Nat) (exponent : Int) : Int :=
  exponent + digitCount coefficient - 1

/-- The leading digits of a coefficient, rounded; a carry can reach `10 ^ shownDigits`. -/
def roundedDigits (coefficient : Nat) : Nat :=
  divHalfEven coefficient (10 ^ (digitCount coefficient - shownDigits))

/--
The rounded form of `coefficient × 10 ^ exponent` for a nonzero coefficient.

When rounding carries into a new digit, the power grows by one.
-/
def ofScaled (coefficient : Nat) (exponent : Int) : Scientific :=
  let kept := roundedDigits coefficient
  let power := leadingPower coefficient exponent
  let digits := natText kept
  { whole := digits.headD '0'
    fraction := dropTrailingZeros digits.tail
    power := if kept = 10 ^ shownDigits then power + 1 else power }

def superscript : Char → Char
  | '0' => '⁰'
  | '1' => '¹'
  | '2' => '²'
  | '3' => '³'
  | '4' => '⁴'
  | '5' => '⁵'
  | '6' => '⁶'
  | '7' => '⁷'
  | '8' => '⁸'
  | '9' => '⁹'
  | '+' => '⁺'
  | '-' => '⁻'
  | c => c

/-- Text of the form `2.5×10⁻²`, without a point when there is no fraction. -/
def text (s : Scientific) : List Char :=
  let tail := '×' :: '1' :: '0' :: (intText s.power).map superscript
  match s.fraction with
  | [] => s.whole :: tail
  | fraction => s.whole :: '.' :: (fraction ++ tail)

end Scientific

def scientificText (coefficient : Nat) (exponent : Int) : List Char :=
  if coefficient = 0 then ['0'] else (Scientific.ofScaled coefficient exponent).text

end Decimal

end WeightedKripke
