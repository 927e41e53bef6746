import BundleSize.Json.Writer
import BundleSize.Search.Partition
import BundleSize.SourceMap.Decoding
import BundleSize.Text.Character
import BundleSize.Text.Word

/-!
# Position mapping tables

A table answers two questions about the mappings it holds: where in the
generated text a position of the selected source went, and which
source position a generated one came from. It keeps the mappings sorted
by generated position for the second question, and those of the selected
source by source position for the first.

Both orders are stable, so that among equal positions the mapping that was
decoded first comes first. The table carries the proof that its two indexes
are these sorted lists.

A document may also give a table in which some positions are no whole numbers.
Such a table is made like any other, but nothing is looked up in it here.
-/

namespace BundleSize

/-- Which neighbour a lookup settles for when the position itself is not in the table. -/
inductive Bias where
  /-- The nearest mapping at or after the position. -/
  | leastUpper
  /-- The nearest mapping at or before the position. -/
  | greatestLower
  deriving Repr, DecidableEq

/-- A mapping of the selected source, with its source position at hand. -/
structure Anchor where
  position : Position
  mapping : Mapping
  deriving Repr, BEq, Inhabited

/-- By source position, and by generated position where those agree. -/
def Anchor.order (a b : Anchor) : Bool :=
  a.position.before b.position ||
    (a.position == b.position && a.mapping.generated.upTo b.mapping.generated)

/-- By generated position. -/
def Mapping.order (a b : Mapping) : Bool := a.generated.upTo b.generated

/-- The source position of a mapping, when it belongs to the source. -/
def Mapping.anchor? (source : Option Label) (m : Mapping) : Option Anchor :=
  match m.source, m.sourcePosition with
  | some label, some position => if source == some label then some ⟨position, m⟩ else none
  | _, _ => none

/-- The mappings of a source, in the order of their source positions. -/
def anchors (source : Option Label) (mappings : List Mapping) : List Anchor :=
  (mappings.filterMap (Mapping.anchor? source)).mergeSort Anchor.order

/-- The mappings with the indexes that lookups use. -/
structure PositionTable where
  mappings : List Mapping
  source : Option Label
  byGenerated : Array Mapping
  bySource : Array Anchor
  byGenerated_eq : byGenerated = (mappings.mergeSort Mapping.order).toArray
  bySource_eq : bySource = (anchors source mappings).toArray

/-- A position in a source file. -/
structure Origin where
  position : Position
  source : Label
  name : Option Label
  deriving Repr, BEq

namespace PositionTable

/-- The source of the first mapping that has one. -/
def firstSource (mappings : List Mapping) : Option Label := mappings.findSome? (·.source)

/-- The table of a list of mappings; without a source, the first one seen is selected. -/
def ofMappings (mappings : List Mapping) (source : Option Label) : PositionTable :=
  let source := source <|> firstSource mappings
  { mappings, source
    byGenerated := (mappings.mergeSort Mapping.order).toArray
    bySource := (anchors source mappings).toArray
    byGenerated_eq := rfl
    bySource_eq := rfl }

/-- The number of mappings. -/
def size (t : PositionTable) : Nat := t.mappings.length

/-- The mapping nearest to a source position. Looking back from a position that several
mappings share, the one with the first generated position is preferred. -/
def find? (t : PositionTable) (p : Position) : Bias → Option Mapping
  | .leastUpper =>
    let i := partitionPoint t.bySource fun a => a.position.before p
    t.bySource[i]?.map (·.mapping)
  | .greatestLower =>
    let i := partitionPoint t.bySource fun a => a.position.upTo p
    match t.bySource[i - 1]? with
    | none => none
    | some last =>
      if i = 0 then none
      else
        let first := partitionPoint t.bySource fun a => a.position.before last.position
        t.bySource[first]?.map (·.mapping)

/-- Where a source position went in the generated text. -/
def generated? (t : PositionTable) (p : Position) (bias : Bias) : Option Position :=
  (t.find? p bias).map (·.generated)

/-- Where a generated position came from: the last mapping at or before it decides, if it stands
on the same line. -/
def origin? (t : PositionTable) (p : Position) : Option Origin :=
  let i := partitionPoint t.byGenerated fun m => m.generated.upTo p
  if i = 0 then none
  else
    match t.byGenerated[i - 1]? with
    | none => none
    | some m =>
      if m.generated.line ≠ p.line then none
      else
        match m.source, m.sourcePosition with
        | some source, some position => some ⟨position, source, m.name⟩
        | _, _ => none

/-! ## Identity -/

/-- A token of a line: a run of word characters or one other character that is not blank. Each
is given by its first column. -/
def tokenStarts (column : Nat) (inWord : Bool) : List Char → List Nat
  | [] => []
  | c :: rest =>
    if Text.isWord c then
      let later := tokenStarts (column + 1) true rest
      if inWord then later else column :: later
    else if Text.isBlank c then tokenStarts (column + 1) false rest
    else column :: tokenStarts (column + 1) false rest

/-- The mappings that send every token of the lines from number `line` on to itself. -/
def identityMappings (source : Label) (line : Nat) : List (List Char) → List Mapping
  | [] => []
  | text :: lines =>
    (tokenStarts 0 false text).map (fun (column : Nat) =>
      let p : Position := ⟨line, column⟩
      ⟨p, labelOf source, some p, none⟩) ++ identityMappings source (line + 1) lines

/-- The table that sends every token of a text to itself. -/
def identity (text : String) (source : Label) : PositionTable :=
  ofMappings (identityMappings source 1 (Text.splitAt '\n' text.toList)) (labelOf source)

end PositionTable

/-! ## Tables of documents -/

/-- The table that a document gives. -/
inductive DocumentTable where
  | whole (table : PositionTable)
  /-- Some position is no whole number. -/
  | fractional (placed : List PlacedMapping) (source : Option Label)

namespace DocumentTable

/-- The table of a list of mappings; without a source, the first one seen is selected. -/
def ofPlaced (placed : List PlacedMapping) (source : Option Label) : DocumentTable :=
  match placed.mapM PlacedMapping.whole? with
  | some mappings => .whole (.ofMappings mappings source)
  | none => .fractional placed (source <|> placed.findSome? (·.source))

theorem mapM_whole? (mappings : List Mapping) :
    (mappings.map PlacedMapping.whole).mapM PlacedMapping.whole? = some mappings := by
  induction mappings with
  | nil => rfl
  | cons m mappings ih => simp [List.mapM_cons, PlacedMapping.whole?, ih]

theorem eq_map_of_mapM_whole? : ∀ {placed : List PlacedMapping} {mappings : List Mapping},
    placed.mapM PlacedMapping.whole? = some mappings → placed = mappings.map .whole
  | [], mappings, h => by
      obtain rfl : [] = mappings := Option.some.inj h
      rfl
  | .whole m :: placed, mappings, h => by
      rw [List.mapM_cons] at h
      obtain ⟨m', hm, h⟩ := Option.bind_eq_some_iff.mp h
      obtain ⟨later, hlater, h⟩ := Option.bind_eq_some_iff.mp h
      obtain rfl : m = m' := Option.some.inj hm
      obtain rfl : m :: later = mappings := Option.some.inj h
      rw [eq_map_of_mapM_whole? hlater, List.map_cons]
  | .fractional .. :: placed, _, h => by
      rw [List.mapM_cons] at h
      cases h

@[simp] theorem ofPlaced_map_whole (mappings : List Mapping) (source : Option Label) :
    ofPlaced (mappings.map .whole) source = .whole (.ofMappings mappings source) := by
  rw [ofPlaced, mapM_whole?]

/-- The selected source. -/
def source : DocumentTable → Option Label
  | whole table => table.source
  | fractional _ source => source

/-- The number of mappings. -/
def size : DocumentTable → Nat
  | whole table => table.size
  | fractional placed _ => placed.length

/-- The mappings with whole positions. -/
def mappings : DocumentTable → List Mapping
  | whole table => table.mappings
  | fractional placed _ => placed.filterMap PlacedMapping.whole?

/-- The table for lookups. -/
def toPositions : DocumentTable → Except MapError PositionTable
  | whole table => .ok table
  | fractional .. => .error .fractional

/-- The table of a document. A source that nobody asked for by its name is shown when it has been
selected, and so must not hold a number that is too long. -/
def ofDocument (document : Json) (source : Option Label) : Except MapError DocumentTable := do
  let table := ofPlaced (← decodeDocument document) source
  if source.isNone ∧ !(table.source.getD .null).isWritable then throw .unshownSource
  return table

/-- What a document's mappings are decides what its table is, when the source that is selected can
be shown. -/
theorem ofDocument_eq {document : Json} {mappings : List Mapping} {source : Option Label}
    (hdecode : decodeDocument document = .ok (mappings.map .whole))
    (hshown : source = none →
      ((PositionTable.firstSource mappings).getD .null).isWritable = true) :
    ofDocument document source = .ok (.whole (.ofMappings mappings source)) := by
  cases source with
  | none =>
    simp [ofDocument, hdecode, bind, Except.bind, DocumentTable.source, PositionTable.ofMappings,
      hshown rfl, pure, Except.pure]
  | some source => simp [ofDocument, hdecode, bind, Except.bind, pure, Except.pure]

/-- The table of a document's text. -/
def ofText (text : String) (source : Option Label) : Except MapError DocumentTable := do
  let document ← (Json.read text).mapError .notJson
  ofDocument document source

/-- The table of a document's bytes. -/
def ofBytes (bytes : Text.Bytes) (source : Option Label) : Except MapError DocumentTable := do
  let document ← (Json.readBytes bytes).mapError .notJson
  ofDocument document source

end DocumentTable

namespace PositionTable

/-- The table of a document, for lookups. -/
def ofDocument (document : Json) (source : Option Label) : Except MapError PositionTable := do
  (← DocumentTable.ofDocument document source).toPositions

theorem ofDocument_eq {document : Json} {mappings : List Mapping} {source : Option Label}
    (hdecode : decodeDocument document = .ok (mappings.map .whole))
    (hshown : source = none → ((firstSource mappings).getD .null).isWritable = true) :
    ofDocument document source = .ok (ofMappings mappings source) := by
  rw [ofDocument, DocumentTable.ofDocument_eq hdecode hshown]
  rfl

/-- The table of a document's text, for lookups. -/
def ofText (text : String) (source : Option Label) : Except MapError PositionTable := do
  (← DocumentTable.ofText text source).toPositions

/-- The table of a document's bytes, for lookups. -/
def ofBytes (bytes : Text.Bytes) (source : Option Label) : Except MapError PositionTable := do
  (← DocumentTable.ofBytes bytes source).toPositions

end PositionTable

end BundleSize
