import WeightedKripke.Text.Printable

/-!
# Quoted text in messages

A string is shown between double quotes, a character between single quotes.  The
quotation mark in use, the backslash and the common controls have short escapes;
every other character that is not printable is written as `\u` with its code point
in braces.
-/

namespace WeightedKripke

namespace Text

def hexTextFuel : Nat → Nat → List Char
  | 0, n => [Nat.digitChar (n % 16)]
  | fuel + 1, n =>
      if n < 16 then
        [Nat.digitChar n]
      else
        hexTextFuel fuel (n / 16) ++ [Nat.digitChar (n % 16)]

def hexText (n : Nat) : List Char :=
  hexTextFuel n n

/-- A character inside quotation marks of the given kind. -/
def escape (mark c : Char) : List Char :=
  match c with
  | '\x00' => ['\\', '0']
  | '\t' => ['\\', 't']
  | '\n' => ['\\', 'n']
  | '\r' => ['\\', 'r']
  | '\\' => ['\\', '\\']
  | c =>
      if c = mark then
        ['\\', c]
      else if isPrintable c then
        [c]
      else
        '\\' :: 'u' :: '\x7b' :: (hexText c.toNat ++ ['\x7d'])

def quoteString (s : String) : String :=
  String.ofList ('"' :: (s.toList.flatMap (escape '"') ++ ['"']))

def quoteChar (c : Char) : String :=
  String.ofList ('\'' :: (escape '\'' c ++ ['\'']))

end Text

end WeightedKripke
