/-!
# Reading graph text

Text is read by the quoting rule alone: a quotation mark opens a string, a backslash
inside takes the next character with it, and a mark that is not taken closes the
string.  The statements of a graph stand between its braces, separated by the line
breaks that lie outside of strings; blanks around them do not count.

A text that can stand in a string is `Quotable`; `Scans` says what a text is read as
in front of any other one.
-/

namespace WeightedKripke

namespace Dot

/-- A part of a text: a character outside of strings, or a string without its marks. -/
inductive Piece where
  | plain (c : Char)
  | quoted (body : List Char)
deriving DecidableEq

/--
The pieces of a text.

The first argument holds what was read of an open string; a text that ends in one
cannot be read.
-/
def readPieces : Option (List Char) → List Char → Option (List Piece)
  | none, [] => some []
  | some _, [] => none
  | none, c :: rest =>
      if c = '"' then
        readPieces (some []) rest
      else
        (readPieces none rest).map (.plain c :: ·)
  | some body, '\\' :: c :: rest => readPieces (some (body ++ ['\\', c])) rest
  | some body, c :: rest =>
      if c = '"' then
        (readPieces none rest).map (.quoted body :: ·)
      else
        readPieces (some (body ++ [c])) rest

def splitPieces : List Piece → List (List Piece)
  | [] => [[]]
  | piece :: rest =>
      if piece = .plain '\n' then
        [] :: splitPieces rest
      else
        match splitPieces rest with
        | [] => [[piece]]
        | line :: more => (piece :: line) :: more

structure Reading where
  header : List Piece
  statements : List (List Piece)
deriving DecidableEq

/-- The statements of a body: its lines without leading blanks, but for empty ones. -/
def readStatements (body : List Piece) : List (List Piece) :=
  ((splitPieces body).map fun line => line.dropWhile (· == .plain ' ')).filter (· ≠ [])

def readGraph (text : List Char) : Option Reading := do
  let pieces ← readPieces none text
  match pieces.dropWhile (· != .plain '\x7b') with
  | [] => none
  | _ :: body =>
      if body.getLast? = some (.plain '\x7d') then
        some ⟨pieces.takeWhile (· != .plain '\x7b'), readStatements body.dropLast⟩
      else
        none

/-! ## Strings -/

/-- A text that can stand in a string, and whose pairs with a backslash hold no line break. -/
inductive Quotable : List Char → Prop where
  | nil : Quotable []
  | pair {c : Char} {rest : List Char} (unbroken : c ≠ '\n' ∧ c ≠ '\r')
      (more : Quotable rest) : Quotable ('\\' :: c :: rest)
  | char {c : Char} {rest : List Char} (unmarked : c ≠ '"' ∧ c ≠ '\\')
      (more : Quotable rest) : Quotable (c :: rest)

theorem Quotable.append {first second : List Char} (hfirst : Quotable first)
    (hsecond : Quotable second) : Quotable (first ++ second) := by
  induction hfirst with
  | nil => exact hsecond
  | pair unbroken more ih => exact .pair unbroken ih
  | char unmarked more ih => exact .char unmarked ih

theorem quotable_of_forall {text : List Char}
    (h : ∀ c, c ∈ text → c ≠ '"' ∧ c ≠ '\\') : Quotable text := by
  induction text with
  | nil => exact .nil
  | cons c rest ih =>
      exact .char (h c List.mem_cons_self) (ih fun d hd => h d (List.mem_cons_of_mem c hd))

theorem readPieces_quotable {body : List Char} (h : Quotable body) (before rest : List Char) :
    readPieces (some before) (body ++ '"' :: rest) =
      (readPieces none rest).map (.quoted (before ++ body) :: ·) := by
  induction h generalizing before with
  | nil => simp [readPieces]
  | pair unbroken more ih =>
      simp [readPieces, ih]
  | char unmarked more ih =>
      rename_i c text
      rw [List.cons_append, readPieces, if_neg unmarked.1, ih]
      · simp
      · intro d tail hslash
        exact absurd hslash unmarked.2

/-! ## Texts in front of other texts -/

/-- The text is read as these pieces, whatever follows it. -/
def Scans (text : List Char) (pieces : List Piece) : Prop :=
  ∀ rest, readPieces none (text ++ rest) = (readPieces none rest).map (pieces ++ ·)

theorem Scans.append {first second : List Char} {pieces more : List Piece}
    (hfirst : Scans first pieces) (hsecond : Scans second more) :
    Scans (first ++ second) (pieces ++ more) := by
  intro rest
  rw [List.append_assoc, hfirst, hsecond, Option.map_map]
  congr 1
  funext tail
  simp

theorem scans_nil : Scans [] [] := by
  intro rest
  simp

theorem scans_plain {c : Char} (h : c ≠ '"') : Scans [c] [.plain c] := by
  intro rest
  rw [List.cons_append, readPieces, if_neg h]
  rfl

theorem scans_map_plain {text : List Char} (h : '"' ∉ text) :
    Scans text (text.map .plain) := by
  induction text with
  | nil => exact scans_nil
  | cons c rest ih =>
      rw [List.mem_cons, not_or] at h
      exact (scans_plain fun hc => h.1 hc.symm).append (ih h.2)

theorem scans_quoted {body : List Char} (h : Quotable body) :
    Scans ('"' :: (body ++ ['"'])) [.quoted body] := by
  intro rest
  have hread := readPieces_quotable h [] rest
  rw [List.cons_append, readPieces, if_pos rfl, List.append_assoc]
  exact hread

theorem scans_flatMap {α : Type} {items : List α} {text : α → List Char}
    {pieces : α → List Piece} (h : ∀ a, a ∈ items → Scans (text a) (pieces a)) :
    Scans (items.flatMap text) (items.flatMap pieces) := by
  induction items with
  | nil => exact scans_nil
  | cons a rest ih =>
      rw [List.flatMap_cons, List.flatMap_cons]
      exact (h a List.mem_cons_self).append
        (ih fun b hb => h b (List.mem_cons_of_mem a hb))

theorem Scans.readPieces_eq {text : List Char} {pieces : List Piece} (h : Scans text pieces) :
    readPieces none text = some pieces := by
  have hread := h []
  simpa [readPieces] using hread

/-! ## Lines -/

theorem splitPieces_append {line : List Piece} (h : .plain '\n' ∉ line) (rest : List Piece) :
    splitPieces (line ++ .plain '\n' :: rest) = line :: splitPieces rest := by
  induction line with
  | nil => simp [splitPieces]
  | cons piece line ih =>
      rw [List.mem_cons, not_or] at h
      have hne : piece ≠ .plain '\n' := fun heq => h.1 heq.symm
      rw [List.cons_append, splitPieces, if_neg hne, ih h.2]

/-- Lines behind a line break each, with one more at the end, are split into themselves. -/
theorem splitPieces_flatMap {lines : List (List Piece)}
    (h : ∀ line, line ∈ lines → .plain '\n' ∉ line) {first : List Piece}
    (hfirst : .plain '\n' ∉ first) :
    splitPieces (first ++ (lines.flatMap (.plain '\n' :: ·) ++ [.plain '\n'])) =
      first :: (lines ++ [[]]) := by
  induction lines generalizing first with
  | nil => exact splitPieces_append hfirst []
  | cons line lines ih =>
      have hline := h line List.mem_cons_self
      have hmore := ih (fun other hother => h other (List.mem_cons_of_mem line hother)) hline
      rw [List.flatMap_cons, List.cons_append, List.cons_append, splitPieces_append hfirst,
        List.append_assoc, hmore]
      rfl

theorem dropWhile_blank {width : Nat} {line : List Piece} (h : line.head? ≠ some (.plain ' ')) :
    (List.replicate width (Piece.plain ' ') ++ line).dropWhile (· == .plain ' ') = line := by
  rw [List.dropWhile_append_of_pos (by simp)]
  cases line with
  | nil => rfl
  | cons piece line =>
      have hne : piece ≠ .plain ' ' := by simpa using h
      rw [List.dropWhile_cons_of_neg (by simpa using hne)]

theorem readStatements_indented {statements : List (List Piece)} (width : Nat)
    (hbreak : ∀ statement, statement ∈ statements → .plain '\n' ∉ statement)
    (hstart : ∀ statement, statement ∈ statements →
      statement ≠ [] ∧ statement.head? ≠ some (.plain ' ')) :
    readStatements
        ((statements.map (List.replicate width (.plain ' ') ++ ·)).flatMap (.plain '\n' :: ·) ++
          [.plain '\n']) = statements := by
  have hlines : ∀ line,
      line ∈ statements.map (List.replicate width (.plain ' ') ++ ·) → .plain '\n' ∉ line := by
    intro line hline
    obtain ⟨statement, hstatement, rfl⟩ := List.mem_map.1 hline
    have hnone := hbreak statement hstatement
    simp [hnone]
  have hsplit := splitPieces_flatMap hlines (by simp : Piece.plain '\n' ∉ [])
  have htrim : (statements.map (List.replicate width (.plain ' ') ++ ·)).map
      (fun line => line.dropWhile (· == .plain ' ')) = statements := by
    rw [List.map_map]
    conv => rhs; rw [← List.map_id statements]
    apply List.map_congr_left
    intro statement hstatement
    exact dropWhile_blank (hstart statement hstatement).2
  rw [List.nil_append] at hsplit
  rw [readStatements, hsplit, List.map_cons, List.map_append, htrim]
  simpa using fun statement hstatement => (hstart statement hstatement).1

/-- A header, a brace, statements on lines of their own, and a brace are read as a graph. -/
theorem readGraph_of_scans {text : List Char} {header body : List Piece}
    (h : Scans text (header ++ .plain '\x7b' :: (body ++ [.plain '\x7d'])))
    (hheader : .plain '\x7b' ∉ header) :
    readGraph text = some ⟨header, readStatements body⟩ := by
  have hall : ∀ piece, piece ∈ header → (piece != .plain '\x7b') = true := by
    intro piece hpiece
    have hne : piece ≠ .plain '\x7b' := fun heq => hheader (heq ▸ hpiece)
    simpa using hne
  have hdrop : (header ++ Piece.plain '\x7b' :: (body ++ [.plain '\x7d'])).dropWhile
      (· != .plain '\x7b') = .plain '\x7b' :: (body ++ [.plain '\x7d']) := by
    rw [List.dropWhile_append_of_pos hall]
    simp
  have htake : (header ++ Piece.plain '\x7b' :: (body ++ [.plain '\x7d'])).takeWhile
      (· != .plain '\x7b') = header := by
    rw [List.takeWhile_append_of_pos hall]
    simp
  simp only [readGraph, h.readPieces_eq, bind, Option.bind, hdrop, htake]
  simp

end Dot

end WeightedKripke
