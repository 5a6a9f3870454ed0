import Mathlib.Data.List.Nodup
import WeightedKripke.Proofs.Binary.Codec
import WeightedKripke.Proofs.Json.Codec
import WeightedKripke.Proofs.Json.VerdictCodec
import WeightedKripke.Proofs.Snapshot.RoundTrip

/-!
# Snapshots of other versions

The version is checked when the whole snapshot has been decoded, so a snapshot of another
version is reported as such exactly when its structure can be decoded in the layout of the
supported one.  Otherwise the first fault of its structure is reported.  In JSON the
structure is judged by its own text, wherever it stands among the members.
-/

namespace WeightedKripke

namespace Snapshot

open Json Json.Grammar Json.Fields KripkeStructure

variable {V : Type}

/-- The slots hold what earlier members gave; members of these names are still to come. -/
structure Awaits (version : UInt32) (model : Except Fault (KripkeStructure V))
    (names : List String) (slots : Option UInt32 × Option (KripkeStructure V) × Unit) :
    Prop where
  version : slots.1 = none ∧ "version" ∈ names ∨ slots.1 = some version ∧ "version" ∉ names
  model : slots.2.1 = none ∧ "structure" ∈ names ∨
    ∃ s, model = .ok s ∧ slots.2.1 = some s ∧ "structure" ∉ names

theorem Awaits.tail {version : UInt32} {model : Except Fault (KripkeStructure V)}
    {name : String} {names : List String}
    {slots : Option UInt32 × Option (KripkeStructure V) × Unit}
    (h : Awaits version model (name :: names) slots) (hversion : name ≠ "version")
    (hmodel : name ≠ "structure") : Awaits version model names slots := by
  have hmem : ∀ other, name ≠ other → (other ∈ name :: names ↔ other ∈ names) := by
    intro other hne
    simp [hne.symm]
  exact ⟨by simpa only [hmem _ hversion] using h.version,
    by simpa only [hmem _ hmodel] using h.model⟩

variable [PropertyValue V]

/-- What reading another version comes to, given what its structure is decoded to. -/
def foreign {α : Type} (version : UInt32) :
    Except Fault α → Except (SnapshotError V) (Snapshot V)
  | .ok _ => .error (.unsupportedVersion version)
  | .error fault => .error (.undecodable fault)

theorem verify_of_foreign {s : Snapshot V} (h : s.version ≠ 1) :
    verify s = .error (.unsupportedVersion s.version) :=
  if_neg h

theorem ofBinary_of_foreign [BinaryCodec V] {version : UInt32} (h : version ≠ 1)
    (payload : Bytes) :
    ofBinary (V := V) (BinaryCodec.put version ++ payload) =
      foreign version (BinaryCodec.get (α := KripkeStructure V) payload) := by
  have hpair : BinaryCodec.get (α := UInt32 × KripkeStructure V)
      (BinaryCodec.put version ++ payload) = (do
        let (model, rest) ← BinaryCodec.get (α := KripkeStructure V) payload
        .ok ((version, model), rest)) :=
    congrArg (· >>= _) (get_append version trivial payload)
  have hget : BinaryCodec.get (α := Snapshot V) (BinaryCodec.put version ++ payload) = (do
      let (model, rest) ← BinaryCodec.get (α := KripkeStructure V) payload
      .ok (⟨version, model⟩, rest)) := by
    show (BinaryCodec.get (α := UInt32 × KripkeStructure V) _ >>= _) = _
    rw [hpair]
    cases BinaryCodec.get (α := KripkeStructure V) payload <;> rfl
  rw [ofBinary, hget]
  cases BinaryCodec.get (α := KripkeStructure V) payload with
  | error fault => rfl
  | ok pair => exact verify_of_foreign h

section Json

variable [JsonCodec V]

theorem takes_version (version : UInt32) :
    Takes (JsonCodec.reader (α := UInt32)) (Decimal.natText version.toNat) (.ok version) where
  takes {text rest} starts ends := by
    have htext : (JsonCodec.encode version).write .compact 0 = Decimal.natText version.toNat := by
      have hsign : ¬ (version.toNat : Int) < 0 := by omega
      simp only [JsonCodec.encode, Json.write, Decimal.intText, if_neg hsign, Int.natAbs_natCast]
    rw [← htext] at starts
    exact (LawfulJsonCodec.reads version).takes Style.compact_blank 0 starts ends

/-- What one member does to the slots that await it. -/
theorem takesMember_foreign {version : UInt32} {structureText : List Char}
    {model : Except Fault (KripkeStructure V)}
    (hmodel : Takes (JsonCodec.reader (α := KripkeStructure V)) structureText model)
    {name : String} {names : List String} {text : List Char} (valid : Value text)
    (hfresh : name ∉ names)
    (hversion : name = "version" → text = Decimal.natText version.toNat)
    (hstructure : name = "structure" → text = structureText)
    {slots : Option UInt32 × Option (KripkeStructure V) × Unit}
    (h : Awaits version model (name :: names) slots) :
    (∃ fault, model = .error fault ∧
      (jsonFields V).TakesMember name slots text (.error fault)) ∨
    ∃ next, (jsonFields V).TakesMember name slots text (.ok next) ∧
      Awaits version model names next := by
  obtain ⟨first, second, ⟨⟩⟩ := slots
  by_cases hname : name = "version"
  · subst hname
    obtain ⟨hfirst, _⟩ | ⟨_, hseen⟩ := h.version
    · cases hfirst
      have htakes : (jsonFields V).TakesMember "version" (none, second, ()) text
          (.ok (some version, second, ())) := by
        rw [hversion rfl]
        exact takesMember_first (second, ()) (takes_version version)
      exact Or.inr ⟨_, htakes, Or.inr ⟨rfl, hfresh⟩, by simpa using h.model⟩
    · exact absurd List.mem_cons_self hseen
  · by_cases hother : name = "structure"
    · subst hother
      obtain ⟨hsecond, _⟩ | ⟨_, _, _, hseen⟩ := h.model
      · cases hsecond
        have htakes : (jsonFields V).TakesMember "structure" (first, none, ()) text
            ((model.map fun s => (some s, ())).map fun next => (first, next)) := by
          rw [hstructure rfl]
          exact (takesMember_first () hmodel).of_rest first (by decide)
        cases hread : model with
        | error fault =>
            rw [hread] at htakes
            exact Or.inl ⟨fault, rfl, htakes⟩
        | ok s =>
            rw [hread] at htakes h
            exact Or.inr ⟨_, htakes, by simpa using h.version, Or.inr ⟨s, rfl, rfl, hfresh⟩⟩
      · exact absurd List.mem_cons_self hseen
    · have htakes : (jsonFields V).TakesMember name (first, second, ()) text
          (.ok (first, second, ())) :=
        ((takesMember_done name valid).of_rest second hother).of_rest first hname
      exact Or.inr ⟨_, htakes, h.tail hname hother⟩

theorem runs_foreign {version : UInt32} {structureText : List Char}
    {model : Except Fault (KripkeStructure V)}
    (hmodel : Takes (JsonCodec.reader (α := KripkeStructure V)) structureText model)
    {found : List (List Char × List Char)} {members : List (String × List Char)}
    (hnames : List.Forall₂ Named found members)
    (hvalues : ∀ member, member ∈ members → Value member.2)
    (hnodup : (members.map Prod.fst).Nodup)
    (hversion : ∀ text, ("version", text) ∈ members →
      text = Decimal.natText version.toNat)
    (hstructure : ∀ text, ("structure", text) ∈ members → text = structureText) :
    ∀ {slots : Option UInt32 × Option (KripkeStructure V) × Unit},
      Awaits version model (members.map Prod.fst) slots →
        (jsonFields V).Runs slots found
          (model.map fun s => (some version, some s, ())) := by
  induction hnames with
  | nil =>
      intro slots h
      obtain ⟨first, second, _⟩ := slots
      obtain ⟨_, hfirst⟩ | ⟨hfirst, _⟩ := h.version
      · cases hfirst
      · obtain ⟨_, hsecond⟩ | ⟨s, hread, hsecond, _⟩ := h.model
        · cases hsecond
        · cases hfirst
          cases hsecond
          rw [hread]
          exact .done _
  | @cons member named found members hnamed _ ih =>
      intro slots h
      obtain ⟨body, value⟩ := member
      obtain ⟨name, text⟩ := named
      obtain ⟨hkey, rfl⟩ := hnamed
      obtain ⟨hfresh, hnodup⟩ := List.nodup_cons.1 hnodup
      have hstep := takesMember_foreign hmodel (hvalues _ List.mem_cons_self) hfresh
        (fun hname => hversion _ (hname ▸ List.mem_cons_self))
        (fun hname => hstructure _ (hname ▸ List.mem_cons_self)) h
      have hspelled : String.ofList name.toList = name := String.ofList_toList
      obtain ⟨fault, hfault, htakes⟩ | ⟨next, htakes, hnext⟩ := hstep
      · rw [hfault]
        exact .fault (TakesMember.steps hkey (hspelled.symm ▸ htakes))
      · refine .more (TakesMember.steps hkey (hspelled.symm ▸ htakes)) ?_
        exact ih (fun other hother => hvalues other (List.mem_cons_of_mem _ hother)) hnodup
          (fun text htext => hversion text (List.mem_cons_of_mem _ htext))
          (fun text htext => hstructure text (List.mem_cons_of_mem _ htext)) hnext

theorem ofJson_of_foreign [JudgingJsonCodec V] {version : UInt32} (h : version ≠ 1)
    {members : List (String × List Char)} {structureText : List Char} {text : String}
    (hobject : Object members text.toList) (hnodup : (members.map Prod.fst).Nodup)
    (hversion : ("version", Decimal.natText version.toNat) ∈ members)
    (hstructure : ("structure", structureText) ∈ members) :
    ofJson (V := V) text =
      foreign version (JsonCodec.decodeText (α := KripkeStructure V) structureText) := by
  have hunique : ∀ {name : String} {a b : List Char}, (name, a) ∈ members →
      (name, b) ∈ members → a = b := by
    intro name a b ha hb
    exact congrArg Prod.snd (List.inj_on_of_nodup_map hnodup ha hb rfl)
  generalize htext : text.toList = characters at hobject
  cases hobject with
  | @intro left inside right found before body names after =>
      have hvalues := value_of_named names fun member hmember =>
        (body.forall member hmember).2
      have hmodel := takes_decodeText (α := KripkeStructure V) (hvalues _ hstructure)
      have hstart : Awaits (V := V) version (JsonCodec.decodeText structureText)
          (members.map Prod.fst) (none, none, ()) :=
        ⟨Or.inl ⟨rfl, List.mem_map_of_mem hversion⟩,
          Or.inl ⟨rfl, List.mem_map_of_mem hstructure⟩⟩
      have hrun := runs_foreign hmodel names hvalues hnodup
        (fun _ hother => hunique hother hversion) (fun _ hother => hunique hother hstructure) hstart
      have hsnapshot : Takes (JsonCodec.reader (α := Snapshot V)) ('\x7b' :: inside) _ :=
        (Runs.takes_record hrun body).andThen _
      have hdecode := hsnapshot.decodeText_eq (.object body) before after
      rw [ofJson, JsonCodec.decode, htext, ← List.cons_append, hdecode]
      cases JsonCodec.decodeText (α := KripkeStructure V) structureText with
      | error fault => rfl
      | ok model => exact verify_of_foreign h

end Json

def storedText (version : UInt32) (structureText : List Char) : List Char :=
  '\x7b' :: '"' :: ("version".toList ++ '"' :: ':' :: (Decimal.natText version.toNat ++
    ',' :: '"' :: ("structure".toList ++ '"' :: ':' :: (structureText ++ ['\x7d']))))

theorem object_storedText (version : UInt32) {structureText : List Char}
    (valid : Value structureText) :
    Object [("version", Decimal.natText version.toNat), ("structure", structureText)]
      (storedText version structureText) := by
  have hversion : Spells "version".toList "version".toList := spells_plain (by simp)
  have hstructure : Spells "structure".toList "structure".toList := spells_plain (by simp)
  have hmembers := Members.more
    (.intro blanks_nil hversion.stringBody blanks_nil blanks_nil (value_natText version.toNat)
      blanks_nil)
    (.last (.intro blanks_nil hstructure.stringBody blanks_nil blanks_nil valid blanks_nil))
  have hnames : List.Forall₂ Named
      [("version".toList, Decimal.natText version.toNat), ("structure".toList, structureText)]
      [("version", Decimal.natText version.toNat), ("structure", structureText)] :=
    .cons ⟨hversion, rfl⟩ (.cons ⟨hstructure, rfl⟩ .nil)
  have hobject := Object.intro blanks_nil (.members hmembers) hnames blanks_nil
  simpa only [storedText, List.nil_append, List.append_nil, List.append_assoc,
    List.cons_append] using hobject

/--
The outcome of reading a snapshot of another version.

Bytes that start with the version are decoded from there on, a JSON object by its
structure.  What can be decoded in the layout of the supported version, be it a valid
structure or not, is reported as being of another version.  What cannot is reported with
the fault of the structure, as if the version were supported.
-/
theorem foreign_version_outcome [JsonCodec V] [JudgingJsonCodec V] [BinaryCodec V]
    {version : UInt32} (h : version ≠ 1) :
    (∀ bytes : Bytes, bytes.take 4 = BinaryCodec.put version →
      ofBinary (V := V) bytes =
        foreign version (BinaryCodec.get (α := KripkeStructure V) (bytes.drop 4))) ∧
    (∀ (members : List (String × List Char)) (structureText : List Char) (text : String),
      Object members text.toList → (members.map Prod.fst).Nodup →
      ("version", Decimal.natText version.toNat) ∈ members →
      ("structure", structureText) ∈ members →
        ofJson (V := V) text =
          foreign version (JsonCodec.decodeText (α := KripkeStructure V) structureText)) := by
  constructor
  · intro bytes hstart
    have hread := ofBinary_of_foreign (V := V) h (bytes.drop 4)
    rwa [← hstart, List.take_append_drop] at hread
  · intro members structureText text hobject hnodup hversion hstructure
    exact ofJson_of_foreign h hobject hnodup hversion hstructure

/-- The array form of a node whose states have one character for a name. -/
def nodeText (state : Char) : List Char :=
  ['[', '"', 'r', 'e', 'a', 'd', '"', ',', '"', state, '"', ',', 't', 'r', 'u', 'e', ',',
    '"', state, '"', ',', '\x7b', '\x7d', ']']

/-- The array form of a structure with this node and no edges. -/
def oneNodeText (state : Char) : List Char :=
  '[' :: '[' :: (nodeText state ++ [']', ',', '[', ']', ',', '[', ']', ']'])

theorem value_oneNodeText {state : Char}
    (h : state ≠ '"' ∧ state ≠ '\\' ∧ ¬ state.toNat < 0x20) : Value (oneNodeText state) := by
  have hempty : Value ['[', ']'] := .array (.empty blanks_nil)
  have hproperties : Value ['\x7b', '\x7d'] := .object (.empty blanks_nil)
  have hphase : Spells ['r', 'e', 'a', 'd'] ['r', 'e', 'a', 'd'] := spells_plain (by simp)
  have hread : Value ['"', 'r', 'e', 'a', 'd', '"'] := .string hphase.stringBody
  have hstate : Value ['"', state, '"'] := .string (.plain h.1 h.2.1 h.2.2 .nil)
  have hnode : Value (nodeText state) :=
    .array (.items (.more blanks_nil hread blanks_nil (.more blanks_nil hstate blanks_nil
      (.more blanks_nil .trueWord blanks_nil (.more blanks_nil hstate blanks_nil
        (.last blanks_nil hproperties blanks_nil))))))
  have hnodes : Value ('[' :: (nodeText state ++ [']'])) :=
    .array (.items (.last blanks_nil hnode blanks_nil))
  exact .array (.items (.more blanks_nil hnodes blanks_nil (.more blanks_nil hempty blanks_nil
    (.last blanks_nil hempty blanks_nil))))

/--
A structure with nodes is of another version, in bytes and as JSON.  Bytes that break off in
front of the first node are malformed, and a node with a digit for a name is refused for it.
-/
theorem foreign_version_outcome_of_nodes :
    ofBinary (V := String) (BinaryCodec.put (2 : UInt32) ++ BinaryCodec.put lamp ++ [7]) =
        .error (.unsupportedVersion 2) ∧
      ofBinary (V := String) ([2, 0, 0, 0] ++ [1, 0, 0, 0, 0, 0, 0, 0]) =
        .error (.undecodable .malformed) ∧
      ofJson (V := String) (String.ofList (storedText 2 (oneNodeText 'A'))) =
        .error (.unsupportedVersion 2) ∧
      ofJson (V := String) (String.ofList (storedText 2 (oneNodeText '7'))) =
        .error (.undecodable (.name (.invalidStart "7"))) := by
  obtain ⟨hbinary, hjson⟩ :=
    foreign_version_outcome (V := String) (by decide : (2 : UInt32) ≠ 1)
  have hnames : ["version", "structure"].Nodup := by decide
  have hread : ∀ state : Char, state ≠ '"' ∧ state ≠ '\\' ∧ ¬ state.toNat < 0x20 →
      ofJson (V := String) (String.ofList (storedText 2 (oneNodeText state))) =
        foreign 2 (JsonCodec.decodeText (α := KripkeStructure String) (oneNodeText state)) := by
    intro state h
    have hstored := object_storedText 2 (value_oneNodeText h)
    rw [← String.toList_ofList (l := storedText 2 (oneNodeText state))] at hstored
    exact hjson _ _ _ hstored hnames List.mem_cons_self
      (List.mem_cons_of_mem _ List.mem_cons_self)
  refine ⟨?_, ?_, ?_, ?_⟩
  · have hlamp := KripkeStructure.get_put fits_lamp [7]
    rw [hbinary _ rfl]
    exact congrArg (foreign 2) hlamp
  · rw [hbinary _ rfl]
    rfl
  · rw [hread 'A' (by decide)]
    rfl
  · rw [hread '7' (by decide)]
    rfl

/-- A version alone, and a version with null for a structure, are reported as undecodable. -/
theorem foreign_version_unrecognised :
    ¬ (∀ (version : UInt32) (bytes : Bytes), version ≠ 1 →
        bytes.take 4 = BinaryCodec.put version →
          ofBinary (V := SignalLiteral) bytes = .error (.unsupportedVersion version)) ∧
    ¬ (∀ (version : UInt32) (members : List (String × List Char))
        (structureText : List Char) (text : String), version ≠ 1 →
          Object members text.toList → (members.map Prod.fst).Nodup →
          ("version", Decimal.natText version.toNat) ∈ members →
          ("structure", structureText) ∈ members →
            ofJson (V := SignalLiteral) text = .error (.unsupportedVersion version)) := by
  constructor
  · intro h
    have hread := h 2 [2, 0, 0, 0] (by decide) (by decide)
    have hcut : ofBinary (V := SignalLiteral) [2, 0, 0, 0] = .error (.undecodable .malformed) := by
      rfl
    rw [hcut] at hread
    cases hread
  · intro h
    have hobject := object_storedText 2 .nullWord
    rw [← String.toList_ofList (l := storedText 2 ['n', 'u', 'l', 'l'])] at hobject
    have hnull : JsonCodec.decodeText (α := KripkeStructure SignalLiteral)
        ['n', 'u', 'l', 'l'] = .error .malformed := by
      rfl
    have hread := h 2 _ ['n', 'u', 'l', 'l'] _ (by decide) hobject (by decide)
      List.mem_cons_self (List.mem_cons_of_mem _ List.mem_cons_self)
    rw [ofJson_of_foreign (by decide) hobject (by decide) List.mem_cons_self
      (List.mem_cons_of_mem _ List.mem_cons_self), hnull] at hread
    cases hread

end Snapshot

end WeightedKripke
