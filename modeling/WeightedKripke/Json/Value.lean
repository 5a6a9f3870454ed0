import WeightedKripke.Decimal.Digits

/-!
# JSON values and their text

The JSON values that are written here hold integers as numbers, and keep the
members of an object in order.  One writer serves both layouts: a style says what
stands where a line may break and behind the colon of a member.
-/

namespace WeightedKripke

inductive Json where
  | null
  | bool (value : Bool)
  | int (value : Int)
  | string (value : String)
  | array (items : List Json)
  | object (members : List (String × Json))

namespace Json

def hexDigit (d : Nat) : Char :=
  Nat.digitChar d

def escapeChar (c : Char) : List Char :=
  match c with
  | '"' => ['\\', '"']
  | '\\' => ['\\', '\\']
  | '\x08' => ['\\', 'b']
  | '\x0c' => ['\\', 'f']
  | '\n' => ['\\', 'n']
  | '\r' => ['\\', 'r']
  | '\t' => ['\\', 't']
  | c =>
      if c.toNat < 0x20 then
        ['\\', 'u', '0', '0', hexDigit (c.toNat / 16), hexDigit (c.toNat % 16)]
      else
        [c]

def quoted (s : String) : List Char :=
  '"' :: (s.toList.flatMap escapeChar ++ ['"'])

structure Style where
  /-- Blanks where a line may break, at a nesting depth. -/
  lineBreak : Nat → List Char
  /-- Blanks behind the colon of a member. -/
  colonGap : List Char

namespace Style

def compact : Style where
  lineBreak _ := []
  colonGap := []

def indented : Style where
  lineBreak depth := '\n' :: List.replicate (2 * depth) ' '
  colonGap := [' ']

end Style

mutual

def write (style : Style) (depth : Nat) : Json → List Char
  | null => ['n', 'u', 'l', 'l']
  | bool true => ['t', 'r', 'u', 'e']
  | bool false => ['f', 'a', 'l', 's', 'e']
  | int value => Decimal.intText value
  | string value => quoted value
  | array [] => ['[', ']']
  | array (item :: rest) =>
      '[' :: (style.lineBreak (depth + 1) ++ write style (depth + 1) item ++
        writeItems style (depth + 1) rest ++ style.lineBreak depth ++ [']'])
  | object [] => ['\x7b', '\x7d']
  | object (member :: rest) =>
      '\x7b' :: (style.lineBreak (depth + 1) ++ writeMember style (depth + 1) member ++
        writeMembers style (depth + 1) rest ++ style.lineBreak depth ++ ['\x7d'])

def writeItems (style : Style) (depth : Nat) : List Json → List Char
  | [] => []
  | item :: rest =>
      ',' :: (style.lineBreak depth ++ write style depth item ++
        writeItems style depth rest)

def writeMember (style : Style) (depth : Nat) : String × Json → List Char
  | (key, value) => quoted key ++ ':' :: (style.colonGap ++ write style depth value)

def writeMembers (style : Style) (depth : Nat) : List (String × Json) → List Char
  | [] => []
  | member :: rest =>
      ',' :: (style.lineBreak depth ++ writeMember style depth member ++
        writeMembers style depth rest)

end

def compactText (value : Json) : List Char :=
  value.write .compact 0

def indentedText (value : Json) : List Char :=
  value.write .indented 0

end Json

end WeightedKripke
