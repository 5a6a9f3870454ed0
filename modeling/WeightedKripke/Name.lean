import WeightedKripke.Text.Quoted

/-!
# Names

Names of machine states and of properties.  A name starts with an ASCII letter and
goes on with letters, digits and single underscores, of which none comes last.
`Name.ofString` reports the first of four reasons why a text is not a name.
-/

namespace WeightedKripke

inductive NameError where
  | empty
  | invalidStart (text : String)
  | invalidCharacter (text : String) (character : Char)
  /-- An underscore is repeated or comes last. -/
  | invalidUnderscore (text : String)
deriving DecidableEq

namespace NameError

def message : NameError → String
  | empty => "Identifier is empty"
  | invalidStart text =>
      "Identifier " ++ Text.quoteString text ++ " must start with an ASCII letter"
  | invalidCharacter text character =>
      "Identifier " ++ Text.quoteString text ++ " contains invalid character " ++
        Text.quoteChar character
  | invalidUnderscore text =>
      "Identifier " ++ Text.quoteString text ++ " has a trailing or repeated underscore"

end NameError

def isNameChar (c : Char) : Bool :=
  c.isAlphanum || c == '_'

/-- Whether an underscore is followed by another one or by nothing. -/
def hasLooseUnderscore : List Char → Bool
  | [] => false
  | [c] => c == '_'
  | c :: d :: rest => (c == '_' && d == '_') || hasLooseUnderscore (d :: rest)

/-- The first reason why a text is not a name, if there is one. -/
def nameFault? (text : String) : Option NameError :=
  match text.toList with
  | [] => some .empty
  | first :: rest =>
      if !first.isAlpha then
        some (.invalidStart text)
      else
        match rest.find? fun c => !isNameChar c with
        | some c => some (.invalidCharacter text c)
        | none =>
            if hasLooseUnderscore rest then some (.invalidUnderscore text) else none

@[ext] structure Name where
  text : String
  valid : nameFault? text = none
deriving DecidableEq

namespace Name

def ofString (text : String) : Except NameError Name :=
  match h : nameFault? text with
  | none => .ok ⟨text, h⟩
  | some error => .error error

instance : ToString Name := ⟨Name.text⟩

/-- Names are in the order of their texts. -/
instance : Ord Name := ⟨fun a b => compare a.text b.text⟩

theorem compare_def (a b : Name) : compare a b = compare a.text b.text := rfl

instance : Std.TransOrd Name where
  eq_swap {a b} := by
    rw [compare_def, compare_def]
    exact Std.OrientedCmp.eq_swap
  isLE_trans {a b c} hab hbc := by
    rw [compare_def] at *
    exact Std.TransCmp.isLE_trans hab hbc

instance : Std.LawfulEqOrd Name where
  eq_of_compare {a b} h := by
    rw [compare_def] at h
    exact Name.ext (Std.LawfulEqCmp.eq_of_compare h)

theorem ofString_text (name : Name) : ofString name.text = .ok name := by
  unfold ofString
  split
  · rfl
  · rename_i error h
    rw [name.valid] at h
    cases h

theorem text_of_ofString {text : String} {name : Name} (h : ofString text = .ok name) :
    name.text = text := by
  unfold ofString at h
  split at h
  · cases h
    rfl
  · cases h

end Name

end WeightedKripke
