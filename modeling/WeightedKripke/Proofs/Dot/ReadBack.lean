import WeightedKripke.Proofs.Decimal.Text
import WeightedKripke.Proofs.Dot.Label
import WeightedKripke.Proofs.Dot.Statement

/-!
# The text of a graph is read back as the graph

`graphReading` lists what a reader has to find for a structure: for each node, by
position, its record and, if it is initial, the marker and the arrow around it; then
every edge, by the position of its source.  Each label is one string.  Any text that
is rendered is read as just this, whatever the labels and the name of the graph hold.
-/

namespace WeightedKripke

namespace Dot

def plains (text : String) : List Piece :=
  text.toList.map .plain

def markerName (id : Nat) : List Char :=
  Decimal.natText id ++ "-0".toList

/-! ## Statements as pieces -/

def markerPieces (id : Nat) : List Piece :=
  .quoted (markerName id) :: plains " [shape=point]"

def recordPieces (id : Nat) (label : List Char) : List Piece :=
  .quoted (Decimal.natText id) ::
    (plains " [style=rounded shape=rectangle label=" ++ [.quoted label, .plain ']'])

def startPieces (id : Nat) : List Piece :=
  .quoted (markerName id) :: (plains " -> " ++ [.quoted (Decimal.natText id)])

def edgePieces (source target : Nat) (label : List Char) : List Piece :=
  .quoted (Decimal.natText source) ::
    (plains " -> " ++ .quoted (Decimal.natText target) ::
      (plains " [label=" ++ [.quoted label, .plain ']']))

def Statement.pieces (options : Options) : Statement → List Piece
  | marker id => markerPieces id
  | record id label => recordPieces id (options.relaid label)
  | start id => startPieces id
  | edge source target label => edgePieces source target label.tail.dropLast

section Structure

variable {V : Type} [PropertyValue V]

def nodeReading (options : Options) (s : KripkeStructure V) (node : Node V) (id : Nat) :
    List (List Piece) :=
  if node ∈ s.initialStates then
    [markerPieces id, recordPieces id (options.relaid (nodeLabel node)), startPieces id]
  else
    [recordPieces id (options.relaid (nodeLabel node))]

def edgeReadings (s : KripkeStructure V) (node : Node V) (id : Nat) : List (List Piece) :=
  (s.edgesFrom node).map fun edge =>
    edgePieces id (s.nodes.idxOf edge.target) (costText edge.cost)

def nameReading : Option String → List Piece
  | none => []
  | some name => [.quoted (escape name.toList), .plain ' ']

def graphReading (s : KripkeStructure V) (options : Options) : Reading where
  header := plains "digraph " ++ nameReading options.graphName
  statements :=
    s.nodes.zipIdx.flatMap (fun (node, id) => nodeReading options s node id) ++
      s.nodes.zipIdx.flatMap (fun (node, id) => edgeReadings s node id)

theorem map_pieces_drawing (s : KripkeStructure V) (options : Options) :
    (drawing s).map (Statement.pieces options) = (graphReading s options).statements := by
  have hnode : ∀ node id, (nodeStatements s node id).map (Statement.pieces options) =
      nodeReading options s node id := by
    intro node id
    unfold nodeStatements nodeReading KripkeStructure.isInitial
    by_cases hinitial : node ∈ s.initialStates <;> simp [hinitial, Statement.pieces]
  have hedges : ∀ node id, (edgeStatements s node id).map (Statement.pieces options) =
      edgeReadings s node id := by
    intro node id
    simp [edgeStatements, edgeReadings, Statement.pieces, costLabel_eq]
  simp only [drawing, graphReading, List.map_append, List.map_flatMap, hnode, hedges]

end Structure

/-! ## Reading one statement -/

theorem scans_nodeId (id : Nat) :
    Scans (Statement.nodeId id) [.quoted (Decimal.natText id)] :=
  scans_quoted (inline_natText id).quotable

theorem inline_markerName (id : Nat) : Inline (markerName id) :=
  (inline_natText id).append (by decide)

theorem markerId_eq (id : Nat) :
    Statement.markerId id = '"' :: (markerName id ++ ['"']) := by
  simp [Statement.markerId, markerName]

theorem scans_markerId (id : Nat) : Scans (Statement.markerId id) [.quoted (markerName id)] := by
  rw [markerId_eq]
  exact scans_quoted (inline_markerName id).quotable

theorem scans_plains {text : String} (h : '"' ∉ text.toList) :
    Scans text.toList (plains text) :=
  scans_map_plain h

theorem Inline.unbroken_quoted {body : List Char} (h : Inline body) :
    Unbroken ('"' :: (body ++ ['"'])) := by
  have hmark : Unbroken ['"'] := by decide
  exact hmark.append (h.unbroken.append hmark)

theorem unbroken_nodeId (id : Nat) : Unbroken (Statement.nodeId id) :=
  (inline_natText id).unbroken_quoted

theorem unbroken_markerId (id : Nat) : Unbroken (Statement.markerId id) := by
  rw [markerId_eq]
  exact (inline_markerName id).unbroken_quoted

namespace Statement

/-- The labels of a statement can be read: that of a record, and that of an edge in its marks. -/
inductive Readable : Statement → Prop where
  | marker (id : Nat) : Readable (.marker id)
  | record (id : Nat) {label : List Char} (quotable : Quotable label) :
      Readable (.record id label)
  | start (id : Nat) : Readable (.start id)
  | edge (source target : Nat) {label : List Char} (inline : Inline label) :
      Readable (.edge source target ('"' :: (label ++ ['"'])))

theorem Readable.scans {statement : Statement} (h : Readable statement) (options : Options) :
    Scans (options.relaid statement.text) (statement.pieces options) := by
  cases h with
  | marker id =>
      have hunbroken : Unbroken (text (.marker id)) :=
        (unbroken_markerId id).append (by decide)
      rw [options.relaid_of_unbroken hunbroken]
      exact (scans_markerId id).append (scans_plains (by decide))
  | record id quotable =>
      rename_i label
      have hstart : Unbroken
          (nodeId id ++ " [style=rounded shape=rectangle label=\"".toList) :=
        (unbroken_nodeId id).append (by decide)
      have hend : options.relaid "\"]".toList = "\"]".toList :=
        options.relaid_of_unbroken (by decide)
      have htext : options.relaid (text (.record id label)) =
          nodeId id ++ (" [style=rounded shape=rectangle label=".toList ++
            (('"' :: (options.relaid label ++ ['"'])) ++ "]".toList)) := by
        rw [text, List.append_assoc, options.relaid_unbroken_append hstart,
          options.relaid_append (by decide), hend]
        simp
      rw [htext]
      exact (scans_nodeId id).append ((scans_plains (by decide)).append
        ((scans_quoted (options.quotable_relaid quotable)).append (scans_plains (by decide))))
  | start id =>
      have hunbroken : Unbroken (text (.start id)) :=
        ((unbroken_markerId id).append (by decide)).append (unbroken_nodeId id)
      rw [options.relaid_of_unbroken hunbroken, text, List.append_assoc]
      exact (scans_markerId id).append ((scans_plains (by decide)).append (scans_nodeId id))
  | edge source target inline =>
      rename_i label
      have hunbroken : Unbroken (text (.edge source target ('"' :: (label ++ ['"'])))) :=
        (((((unbroken_nodeId source).append (by decide)).append
          (unbroken_nodeId target)).append (by decide)).append inline.unbroken_quoted).append
          (by decide)
      have hbody : ('"' :: (label ++ ['"'])).tail.dropLast = label := by simp
      rw [options.relaid_of_unbroken hunbroken, text, pieces, hbody]
      simp only [List.append_assoc]
      exact (scans_nodeId source).append ((scans_plains (by decide)).append
        ((scans_nodeId target).append ((scans_plains (by decide)).append
          ((scans_quoted inline.quotable).append (scans_plains (by decide))))))

theorem text_ne_nil (statement : Statement) : statement.text ≠ [] := by
  cases statement <;> simp [text, nodeId, markerId]

theorem getLast?_append_ne {first second : List Char} {c : Char}
    (h : second.getLast? = some c) (hc : c ≠ '\n') : (first ++ second).getLast? ≠ some '\n' := by
  rw [List.getLast?_append, h]
  simpa using hc

theorem getLast?_text (statement : Statement) : statement.text.getLast? ≠ some '\n' := by
  cases statement with
  | marker id => exact getLast?_append_ne (c := ']') (by decide) (by decide)
  | record id label => exact getLast?_append_ne (c := ']') (by decide) (by decide)
  | start id =>
      have htext : text (.start id) =
          (markerId id ++ " -> ".toList ++ '"' :: Decimal.natText id) ++ ['"'] := by
        simp [text, nodeId]
      rw [htext]
      exact getLast?_append_ne (c := '"') (by decide) (by decide)
  | edge source target label => exact getLast?_append_ne (c := ']') (by decide) (by decide)

theorem exists_pieces_cons (options : Options) (statement : Statement) :
    ∃ body more, statement.pieces options = .quoted body :: more := by
  cases statement <;> exact ⟨_, _, rfl⟩

theorem newline_not_mem_plains {text : String} (h : '\n' ∉ text.toList) :
    .plain '\n' ∉ plains text := by
  intro hmem
  obtain ⟨c, hc, heq⟩ := List.mem_map.1 hmem
  cases heq
  exact h hc

/-- Line breaks of labels are inside of strings. -/
theorem newline_not_mem_pieces (options : Options) (statement : Statement) :
    .plain '\n' ∉ statement.pieces options := by
  have hmarker := newline_not_mem_plains (by decide : '\n' ∉ " [shape=point]".toList)
  have hrecord := newline_not_mem_plains
    (by decide : '\n' ∉ " [style=rounded shape=rectangle label=".toList)
  have harrow := newline_not_mem_plains (by decide : '\n' ∉ " -> ".toList)
  have hlabel := newline_not_mem_plains (by decide : '\n' ∉ " [label=".toList)
  cases statement <;>
    simp [pieces, markerPieces, recordPieces, startPieces, edgePieces, hmarker, hrecord, harrow,
      hlabel]

end Statement

/-! ## Reading a whole text -/

theorem scans_header (options : Options) :
    Scans options.header
      (plains "digraph " ++ nameReading options.graphName ++ [.plain '\x7b']) := by
  unfold Options.header
  cases options.graphName with
  | none => exact scans_plains (by decide : '"' ∉ "digraph \x7b".toList)
  | some name =>
      have htext : "digraph \"".toList ++ escape name.toList ++ "\" \x7b".toList =
          "digraph ".toList ++ (('"' :: (escape name.toList ++ ['"'])) ++ " \x7b".toList) := by
        simp
      have hpieces : plains "digraph " ++ nameReading (some name) ++ [.plain '\x7b'] =
          plains "digraph " ++ ([.quoted (escape name.toList)] ++ plains " \x7b") := by
        simp [nameReading, plains]
      show Scans ("digraph \"".toList ++ escape name.toList ++ "\" \x7b".toList) _
      rw [htext, hpieces]
      exact (scans_plains (by decide)).append
        ((scans_quoted (quotable_escape _)).append (scans_plains (by decide)))

theorem scans_blanks (width : Nat) :
    Scans (List.replicate width ' ') (List.replicate width (.plain ' ')) := by
  have hblank : '"' ∉ List.replicate width ' ' := by
    intro hmem
    exact absurd (List.eq_of_mem_replicate hmem) (by decide)
  have hscans := scans_map_plain hblank
  rwa [List.map_replicate] at hscans

/-- The lines of a statement, with the line break before them. -/
theorem scans_indented {statement : Statement} (h : statement.Readable) (options : Options) :
    Scans ((splitLines statement.text).flatMap options.indented)
      (.plain '\n' :: (List.replicate options.indent (.plain ' ') ++
        statement.pieces options)) := by
  rw [options.flatMap_indented_splitLines statement.text_ne_nil statement.getLast?_text]
  exact (scans_plain (by decide)).append
    ((scans_blanks options.indent).append (h.scans options))

/-- Readable statements on indented lines are read as their pieces. -/
theorem readGraph_wrap {body : List Statement}
    (h : ∀ statement, statement ∈ body → statement.Readable) (options : Options) :
    readGraph (options.wrap (body.map Statement.text)) =
      some ⟨plains "digraph " ++ nameReading options.graphName,
        body.map (Statement.pieces options)⟩ := by
  have hlines : ((body.map Statement.text).flatMap splitLines).flatMap options.indented =
      body.flatMap fun statement => (splitLines statement.text).flatMap options.indented := by
    rw [List.flatMap_map, List.flatMap_assoc]
  have hpieces : (body.flatMap fun statement => .plain '\n' ::
      (List.replicate options.indent (.plain ' ') ++ statement.pieces options)) =
      ((body.map (Statement.pieces options)).map
        (List.replicate options.indent (.plain ' ') ++ ·)).flatMap (Piece.plain '\n' :: ·) := by
    rw [List.map_map, List.flatMap_map]
    rfl
  have hbody := scans_flatMap fun statement hstatement =>
    scans_indented (h statement hstatement) options
  have hend : Scans "\n\x7d".toList [.plain '\n', .plain '\x7d'] :=
    scans_plains (by decide : '"' ∉ "\n\x7d".toList)
  have hscans := ((scans_header options).append hbody).append hend
  have hshape : ∀ header lines : List Piece,
      header ++ [.plain '\x7b'] ++ lines ++ [.plain '\n', .plain '\x7d'] =
        header ++ .plain '\x7b' :: ((lines ++ [.plain '\n']) ++ [.plain '\x7d']) := by
    intro header lines
    simp
  rw [hpieces, ← hlines, hshape] at hscans
  have hheader : .plain '\x7b' ∉ plains "digraph " ++ nameReading options.graphName := by
    cases options.graphName <;> simp [plains, nameReading]
  rw [Options.wrap, readGraph_of_scans hscans hheader, readStatements_indented]
  · intro statement hstatement
    obtain ⟨other, _, rfl⟩ := List.mem_map.1 hstatement
    exact other.newline_not_mem_pieces options
  · intro statement hstatement
    obtain ⟨other, _, rfl⟩ := List.mem_map.1 hstatement
    obtain ⟨text, more, hstart⟩ := other.exists_pieces_cons options
    simp [hstart]

/-! ## Declared identifiers -/

/-- The identifier that a statement declares: the one in front of attributes. -/
def declaredId? : List Piece → Option (List Char)
  | .quoted id :: .plain ' ' :: .plain '[' :: _ => some id
  | _ => none

theorem markerName_ne_natText (i j : Nat) : markerName i ≠ Decimal.natText j := by
  intro h
  have hdash : '-' ∈ Decimal.natText j := by
    rw [← h]
    simp [markerName]
  exact absurd (Decimal.isDigit_of_mem_natText hdash) (by decide)

theorem markerName_injective {i j : Nat} (h : markerName i = markerName j) : i = j :=
  Decimal.natText_injective (List.append_cancel_right h)

variable {V : Type} [PropertyValue V]

/-- The identifiers of the node at a position: its own, behind that of its marker. -/
def nodeIds (s : KripkeStructure V) (node : Node V) (id : Nat) : List (List Char) :=
  if node ∈ s.initialStates then
    [markerName id, Decimal.natText id]
  else
    [Decimal.natText id]

def declaredIds (s : KripkeStructure V) : List (List Char) :=
  s.nodes.zipIdx.flatMap fun (node, id) => nodeIds s node id

theorem filterMap_declaredId? (s : KripkeStructure V) (options : Options) :
    (graphReading s options).statements.filterMap declaredId? = declaredIds s := by
  have hnode : ∀ node id,
      (nodeReading options s node id).filterMap declaredId? = nodeIds s node id := by
    intro node id
    unfold nodeReading nodeIds
    split <;> rfl
  have hedges : ∀ node id, (edgeReadings s node id).filterMap declaredId? = [] := by
    intro node id
    rw [edgeReadings, List.filterMap_map, List.filterMap_eq_nil_iff]
    intro edge _
    rfl
  simp [graphReading, declaredIds, List.filterMap_flatMap, hnode, hedges]

theorem mem_nodeIds {s : KripkeStructure V} {node : Node V} {id : Nat} {name : List Char}
    (h : name ∈ nodeIds s node id) : name = markerName id ∨ name = Decimal.natText id := by
  unfold nodeIds at h
  split at h <;> simp_all

theorem nodup_nodeIds (s : KripkeStructure V) (node : Node V) (id : Nat) :
    (nodeIds s node id).Nodup := by
  unfold nodeIds
  split <;> simp [markerName_ne_natText]

theorem nodup_declaredIds (s : KripkeStructure V) : (declaredIds s).Nodup := by
  have hindices : (s.nodes.zipIdx.map Prod.snd).Nodup := by
    rw [List.zipIdx_map_snd]
    exact List.nodup_range' _
  refine List.pairwise_flatMap.2
    ⟨fun a _ => nodup_nodeIds s a.1 a.2, (List.pairwise_map.1 hindices).imp ?_⟩
  intro a b hne first hfirst second hsecond
  rcases mem_nodeIds hfirst with rfl | rfl <;> rcases mem_nodeIds hsecond with rfl | rfl
  · exact fun h => hne (markerName_injective h)
  · exact markerName_ne_natText a.2 b.2
  · exact fun h => markerName_ne_natText b.2 a.2 h.symm
  · exact fun h => hne (Decimal.natText_injective h)

/-! ## Reading a drawing -/

theorem readable_of_mem_drawing {s : KripkeStructure V} {statement : Statement}
    (h : statement ∈ drawing s) : statement.Readable := by
  rcases List.mem_append.1 h with h | h
  · obtain ⟨⟨node, id⟩, _, h⟩ := List.mem_flatMap.1 h
    have hrecord := Statement.Readable.record id (quotable_nodeLabel node)
    simp only [nodeStatements] at h
    split at h
    · simp only [List.mem_cons, List.not_mem_nil, or_false] at h
      rcases h with rfl | rfl | rfl
      · exact .marker id
      · exact hrecord
      · exact .start id
    · rw [List.mem_singleton] at h
      exact h ▸ hrecord
  · obtain ⟨⟨node, id⟩, _, h⟩ := List.mem_flatMap.1 h
    obtain ⟨edge, _, rfl⟩ := List.mem_map.1 h
    rw [costLabel_eq]
    exact .edge id _ (inline_costText edge.cost)

/--
A text that is rendered is read as the graph of its structure.

Reading does not end in a string, the identifiers that are declared are those of the
nodes and of their markers, without repetition, and the numbers of the targets are
their positions.
-/
theorem readGraph_render {s : KripkeStructure V} {options : Options} {text : String}
    (h : render s options = .ok text) :
    readGraph text.toList = some (graphReading s options) ∧
      (graphReading s options).statements.filterMap declaredId? = declaredIds s ∧
      (declaredIds s).Nodup ∧
      ∀ node, node ∈ s.nodes → ∀ edge, edge ∈ s.edgesFrom node →
        s.indexOf? edge.target = some (s.nodes.idxOf edge.target) := by
  rw [render, renderText] at h
  cases hbody : statements s with
  | error error =>
      rw [hbody] at h
      cases h
  | ok body =>
      rw [hbody] at h
      cases h
      obtain ⟨hdrawable, rfl⟩ := drawable_of_statements hbody
      refine ⟨?_, filterMap_declaredId? s options, nodup_declaredIds s, ?_⟩
      · rw [String.toList_ofList,
          readGraph_wrap (fun _ hmem => readable_of_mem_drawing hmem) options,
          map_pieces_drawing]
        rfl
      · intro node hnode edge hedge
        have hmem := hdrawable.target_mem hnode hedge
        exact List.findIdx?_eq_some_of_exists ⟨edge.target, hmem, by simp⟩

/-- The lamp is drawn with quotation marks in its labels and in its name, and read back. -/
theorem readGraph_render_lamp :
    ∃ text, render KripkeStructure.lamp ⟨2, some "a \"lamp\""⟩ = .ok text ∧
      readGraph text.toList =
        some (graphReading KripkeStructure.lamp ⟨2, some "a \"lamp\""⟩) := by
  obtain ⟨text, htext⟩ := exists_render_of_drawable KripkeStructure.lamp_wellFormed.drawable
    ⟨2, some "a \"lamp\""⟩
  exact ⟨text, htext, (readGraph_render htext).1⟩

end Dot

end WeightedKripke
