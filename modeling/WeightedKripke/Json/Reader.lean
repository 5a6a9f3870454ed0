import WeightedKripke.Decimal.Digits
import WeightedKripke.Decoder

/-!
# Reading JSON text

A reader takes a value off the front of a text and returns the rest.  Blanks before
a token are skipped.  Text is read strictly: no comments, no trailing commas, no
leading zeros, no raw controls and no unpaired surrogates in strings.

Reading is a single pass from left to right, so of several faults the one that
comes first in the text is reported.
-/

namespace WeightedKripke

namespace Json

abbrev Reader (α : Type) :=
  Decoder Char α

def isBlank (c : Char) : Bool :=
  c == ' ' || c == '\n' || c == '\t' || c == '\r'

def skipBlanks (text : List Char) : List Char :=
  text.dropWhile isBlank

namespace Reader

/-- A character that has to come next, after blanks. -/
def token (c : Char) : Reader Unit := fun text =>
  match skipBlanks text with
  | [] => .error .malformed
  | d :: rest => if d = c then .ok ((), rest) else .error .malformed

def word : List Char → Reader Unit
  | [], text => .ok ((), text)
  | _ :: _, [] => .error .malformed
  | c :: expected, d :: rest => if d = c then word expected rest else .error .malformed

/-! ## Strings -/

def hexValue? (c : Char) : Option Nat :=
  if '0' ≤ c ∧ c ≤ '9' then
    some (c.toNat - '0'.toNat)
  else if 'a' ≤ c ∧ c ≤ 'f' then
    some (c.toNat - 'a'.toNat + 10)
  else if 'A' ≤ c ∧ c ≤ 'F' then
    some (c.toNat - 'A'.toNat + 10)
  else
    none

def hexUnit? (a b c d : Char) : Option Nat := do
  let a ← hexValue? a
  let b ← hexValue? b
  let c ← hexValue? c
  let d ← hexValue? d
  return ((a * 16 + b) * 16 + c) * 16 + d

def shortEscape? : Char → Option Char
  | '"' => some '"'
  | '\\' => some '\\'
  | '/' => some '/'
  | 'b' => some '\x08'
  | 'f' => some '\x0c'
  | 'n' => some '\n'
  | 'r' => some '\r'
  | 't' => some '\t'
  | _ => none

def surrogatePair? (high low : Nat) : Option Char :=
  if 0xd800 ≤ high ∧ high < 0xdc00 ∧ 0xdc00 ≤ low ∧ low < 0xe000 then
    some (Char.ofNat (0x10000 + (high - 0xd800) * 0x400 + (low - 0xdc00)))
  else
    none

def basicChar? (unit : Nat) : Option Char :=
  if 0xd800 ≤ unit ∧ unit < 0xe000 then none else some (Char.ofNat unit)

def push (c : Char) (result : Except Fault (List Char × List Char)) :
    Except Fault (List Char × List Char) := do
  let (more, rest) ← result
  .ok (c :: more, rest)

/-- The characters of a string up to its closing quotation mark. -/
def stringBody : Reader (List Char)
  | [] => .error .malformed
  | '"' :: rest => .ok ([], rest)
  | '\\' :: 'u' :: a :: b :: c :: d :: rest =>
      match hexUnit? a b c d with
      | none => .error .malformed
      | some unit =>
          match basicChar? unit with
          | some char => push char (stringBody rest)
          | none =>
              match rest with
              | '\\' :: 'u' :: e :: f :: g :: h :: rest =>
                  match (hexUnit? e f g h).bind (surrogatePair? unit) with
                  | some char => push char (stringBody rest)
                  | none => .error .malformed
              | _ => .error .malformed
  | '\\' :: c :: rest =>
      match shortEscape? c with
      | some char => push char (stringBody rest)
      | none => .error .malformed
  | c :: rest =>
      if c = '\\' ∨ c.toNat < 0x20 then
        .error .malformed
      else
        push c (stringBody rest)

theorem stringBody_quote (rest : List Char) : stringBody ('"' :: rest) = .ok ([], rest) := by
  simp [stringBody]

theorem stringBody_plain {c : Char} (hquote : c ≠ '"') (hslash : c ≠ '\\')
    (hcontrol : ¬ c.toNat < 0x20) (rest : List Char) :
    stringBody (c :: rest) = push c (stringBody rest) := by
  rw [stringBody.eq_def]
  split
  · rename_i heq
    cases heq
  · rename_i heq
    cases heq
    exact absurd rfl hquote
  · rename_i heq
    cases heq
    exact absurd rfl hslash
  · rename_i heq
    cases heq
    exact absurd rfl hslash
  · rename_i heq
    cases heq
    rw [if_neg (not_or.2 ⟨hslash, hcontrol⟩)]

theorem stringBody_short {c d : Char} (h : shortEscape? c = some d) (rest : List Char) :
    stringBody ('\\' :: c :: rest) = push d (stringBody rest) := by
  rw [stringBody.eq_def]
  split
  · simp_all
  · simp_all
  · rename_i heq
    cases heq
    simp [shortEscape?] at h
  · rename_i heq
    cases heq
    simp [h]
  · rename_i hne heq
    cases heq
    exact absurd rfl (hne c rest rfl)

theorem stringBody_unit {a b c d char : Char} {unit : Nat}
    (hunit : hexUnit? a b c d = some unit) (hchar : basicChar? unit = some char)
    (rest : List Char) :
    stringBody ('\\' :: 'u' :: a :: b :: c :: d :: rest) = push char (stringBody rest) := by
  rw [stringBody.eq_def]
  simp [hunit, hchar]

def string : Reader String := fun text => do
  let ((), rest) ← token '"' text
  let (characters, rest) ← stringBody rest
  .ok (String.ofList characters, rest)

/-! ## Numbers and words -/

/-- A run of digits without leading zeros. -/
def natural : Reader Nat := fun text =>
  match Decimal.readDigits text with
  | ([], _) => .error .malformed
  | ('0' :: _ :: _, _) => .error .malformed
  | (digits, rest) => .ok (Decimal.valueOf digits, rest)

def continuesNumber : List Char → Bool
  | c :: _ => c == '.' || c == 'e' || c == 'E'
  | [] => false

/-- An integer, without fraction or exponent; negative zero is none. -/
def integer : Reader Int := fun text => do
  let (value, rest) ←
    match skipBlanks text with
    | '-' :: rest => do
        let (n, rest) ← natural rest
        if n = 0 then .error .malformed else .ok (-(n : Int), rest)
    | text => do
        let (n, rest) ← natural text
        .ok ((n : Int), rest)
  if continuesNumber rest then .error .malformed else .ok (value, rest)

def bool : Reader Bool := fun text =>
  match skipBlanks text with
  | 't' :: rest => do
      let ((), rest) ← word ['r', 'u', 'e'] rest
      .ok (true, rest)
  | 'f' :: rest => do
      let ((), rest) ← word ['a', 'l', 's', 'e'] rest
      .ok (false, rest)
  | _ => .error .malformed

def null : Reader Unit := fun text =>
  word ['n', 'u', 'l', 'l'] (skipBlanks text)

end Reader

/-! ## Values that are not looked at -/

namespace Skip

def digits : Reader Unit := fun text =>
  match Decimal.readDigits text with
  | ([], _) => .error .malformed
  | (_, rest) => .ok ((), rest)

def exponent : Reader Unit := fun text =>
  match text with
  | c :: rest =>
      if c = 'e' ∨ c = 'E' then
        match rest with
        | '+' :: rest => digits rest
        | '-' :: rest => digits rest
        | rest => digits rest
      else
        .ok ((), text)
  | [] => .ok ((), text)

def fractionAndExponent : Reader Unit := fun text =>
  match text with
  | '.' :: rest => do
      let ((), rest) ← digits rest
      exponent rest
  | text => exponent text

def number : Reader Unit := fun text => do
  let (_, rest) ← Reader.natural text
  fractionAndExponent rest

/--
Skip a string up to its closing quotation mark.

Of an escaped code unit only the four digits are checked, as no character is made
of it.
-/
def stringBody : Reader Unit
  | [] => .error .malformed
  | '"' :: rest => .ok ((), rest)
  | '\\' :: 'u' :: a :: b :: c :: d :: rest =>
      match Reader.hexUnit? a b c d with
      | some _ => stringBody rest
      | none => .error .malformed
  | '\\' :: c :: rest =>
      match Reader.shortEscape? c with
      | some _ => stringBody rest
      | none => .error .malformed
  | c :: rest =>
      if c = '\\' ∨ c.toNat < 0x20 then .error .malformed else stringBody rest

def key : Reader Unit := fun text => do
  let ((), rest) ← Reader.token '"' text
  let ((), rest) ← stringBody rest
  Reader.token ':' rest

mutual

def valueFuel : Nat → Reader Unit
  | 0, _ => .error .malformed
  | fuel + 1, text =>
      match skipBlanks text with
      | '"' :: rest => stringBody rest
      | '[' :: rest =>
          match skipBlanks rest with
          | ']' :: rest => .ok ((), rest)
          | rest => itemsFuel fuel rest
      | '\x7b' :: rest =>
          match skipBlanks rest with
          | '\x7d' :: rest => .ok ((), rest)
          | rest => membersFuel fuel rest
      | '-' :: rest => number rest
      | 'n' :: rest => Reader.word ['u', 'l', 'l'] rest
      | 't' :: rest => Reader.word ['r', 'u', 'e'] rest
      | 'f' :: rest => Reader.word ['a', 'l', 's', 'e'] rest
      | rest => number rest

def itemsFuel : Nat → Reader Unit
  | 0, _ => .error .malformed
  | fuel + 1, text => do
      let ((), rest) ← valueFuel fuel text
      match skipBlanks rest with
      | ',' :: rest => itemsFuel fuel rest
      | ']' :: rest => .ok ((), rest)
      | _ => .error .malformed

def membersFuel : Nat → Reader Unit
  | 0, _ => .error .malformed
  | fuel + 1, text => do
      let ((), rest) ← key text
      let ((), rest) ← valueFuel fuel rest
      match skipBlanks rest with
      | ',' :: rest => membersFuel fuel rest
      | '\x7d' :: rest => .ok ((), rest)
      | _ => .error .malformed

end

def value : Reader Unit := fun text =>
  valueFuel (2 * text.length + 1) text

end Skip

end Json

end WeightedKripke
