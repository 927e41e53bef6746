import BundleSize.SourceMap.Decoding
import Mathlib.Algebra.Ring.Int.Defs
import Mathlib.Data.List.Forall2

/-!
# The grammar of mappings

Which texts may stand for the mappings of a document, and what they stand
for, said without reading them. A text is cut into pieces at its semicolons and
commas, and each piece that is not empty spells the numbers of a segment. What
such a number comes to is a sum over the segments so far: over those of the
same line for the column, over those of the whole text for every other kind
(`Sums.over`). A segment without a number of some kind adds nothing to the sum
of that kind.

The sums decide whether a segment may stand where it does (`Reading.Fits`) and
what it maps (`Reading.mapping`). A segment of one number refers to no source,
so it is not asked whether there is one at the sum of the indexes.
-/

namespace BundleSize

/-- The numbers of a segment, and the index of the generated line that it stands on. -/
structure Reading where
  line : Nat
  fields : List Int
  deriving Repr, DecidableEq

/-- The sum of the numbers at an index of their segments. -/
def fieldSum (index : Nat) (readings : List Reading) : Int :=
  (readings.filterMap (·.fields[index]?)).sum

/-- The sums of the numbers of segments, that of the columns for the line with index `line`. -/
def Sums.over (line : Nat) (readings : List Reading) : Sums where
  column := fieldSum 0 (readings.filter (·.line = line))
  source := fieldSum 1 readings
  line := fieldSum 2 readings
  sourceColumn := fieldSum 3 readings
  name := fieldSum 4 readings

/-- The label that is listed at an index, if there is one. -/
def labelAt? (labels : List Json) (index : Int) : Option Label :=
  if index < 0 then none else labels[index.toNat]?.bind labelOf

namespace Reading

/-- With so many sources, the segment may stand where the sums up to and with it are as given. -/
structure Fits (sources : Nat) (sums : Sums) (r : Reading) : Prop where
  count : r.fields.length = 1 ∨ r.fields.length = 4 ∨ r.fields.length = 5
  source : r.fields.length ≠ 1 → 0 ≤ sums.source ∧ sums.source < sources
  column : 0 ≤ sums.column
  line : 0 ≤ sums.line
  sourceColumn : 0 ≤ sums.sourceColumn

/-- What the segment maps when the sums up to and with it are as given. -/
def mapping (sources names : List Json) (sums : Sums) (r : Reading) : Mapping :=
  let generated : Position := ⟨r.line + 1, sums.column⟩
  if r.fields.length = 1 then ⟨generated, none, none, none⟩
  else
    { generated
      source := labelAt? sources sums.source
      sourcePosition := some ⟨sums.line + 1, sums.sourceColumn⟩
      name := if r.fields.length = 5 then labelAt? names sums.name else none }

end Reading

/-- The pieces between the commas of a line that are not empty, with the index of the line. -/
def linePieces (line : Nat) (text : List Char) : List (Nat × List Char) :=
  ((text.splitOn ',').filter (· ≠ [])).map (line, ·)

/-- The pieces of lines, of which the first has the index `line`. -/
def piecesFrom (line : Nat) (lines : List (List Char)) : List (Nat × List Char) :=
  (lines.zipIdx line).flatMap fun (text, n) => linePieces n text

/-- The pieces of a text. -/
def pieces (text : String) : List (Nat × List Char) := piecesFrom 0 (text.toList.splitOn ';')

/-- Each piece spells the numbers of the segment in its place. -/
def Spelled : List (Nat × List Char) → List Reading → Prop :=
  List.Forall₂ fun piece r => piece.1 = r.line ∧ Vlq.Spells piece.2 r.fields

/-- The text consists of the segments, and with so many sources each of them fits the sums of
those up to it. -/
structure Conforms (text : String) (sources : Nat) (readings : List Reading) : Prop where
  spelled : Spelled (pieces text) readings
  fits : ∀ (k : Nat) (r : Reading), readings[k]? = some r →
    r.Fits sources (Sums.over r.line (readings.take (k + 1)))

/-- The segments at the beginning of pieces take the index of the source from `start` to `index`. -/
def Arrives (start : Int) (pieces : List (Nat × List Char)) (index : Int) : Prop :=
  ∃ first rest readings, pieces = first ++ rest ∧ Spelled first readings
    ∧ start + fieldSum 1 readings = index

/-- The segments that a text begins with come to the index of a source. -/
def ComesTo (text : String) (index : Int) : Prop := Arrives 0 (pieces text) index

/-- What segments map, each by the sums up to and with it. -/
def mappingsOf (sources names : List Json) (readings : List Reading) : List Mapping :=
  readings.mapIdx fun k r => r.mapping sources names (Sums.over r.line (readings.take (k + 1)))

/-- The document holds the text of mappings and lists the sources and names. Other members, and
the order of all, make no difference. -/
structure Holds (members : List (String × Json)) (text : String) (sources names : List Json) :
    Prop where
  mappings : Json.member? "mappings" members = some (.string text)
  sources : Json.member? "sources" members = some (.array sources)
  names : Json.member? "names" members = some (.array names)

end BundleSize
