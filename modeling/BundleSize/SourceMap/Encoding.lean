import BundleSize.SourceMap.Decoding
import BundleSize.Text.Line

/-!
# Encoding source map documents

A document is written from lines of segments that hold their numbers as they
are. A segment says at which column of its line it begins and, unless the
generated text from there on comes from no file, to which place of a source
it refers. The numbers go into the document as differences: every field is
what has to be added to the sum of its kind to arrive at the segment's
number.

`Segment.mapping` says what a segment stands for without any sums.

A text that stands for its own minified form has a document in which every
character is sent to its own place. A line feed is a character too: it stands
at the column just past its line, which the last line does not have.
-/

namespace BundleSize

/-- A place in one of a document's sources, which are numbered, as are the names of symbols. Lines
and columns both count from zero. -/
structure Reference where
  source : Nat
  line : Nat
  column : Nat
  name : Option Nat := none
  deriving Repr, DecidableEq

/-- What a document says about a stretch of a generated line. -/
structure Segment where
  column : Nat
  reference : Option Reference := none
  deriving Repr, DecidableEq

namespace Segment

/-- The sources and the name that the segment refers to are among those that are listed. -/
def IsListed (sources names : Nat) (s : Segment) : Prop :=
  ∀ r ∈ s.reference, r.source < sources ∧ ∀ name ∈ r.name, name < names

/-- The fields that write the segment when the sums stand as given. -/
def fields (sums : Sums) (s : Segment) : List Int :=
  let column := s.column - sums.column
  match s.reference with
  | none => [column]
  | some r =>
    let place := [r.source - sums.source, r.line - sums.line, r.column - sums.sourceColumn]
    column :: place ++ (r.name.map fun name => (name : Int) - sums.name).toList

/-- The sums after the segment: the numbers that it gives, and the earlier ones of the kinds that
it does not give. -/
def advance (sums : Sums) (s : Segment) : Sums :=
  match s.reference with
  | none => { sums with column := s.column }
  | some r =>
    { column := s.column
      source := r.source
      line := r.line
      sourceColumn := r.column
      name := (r.name.map Int.ofNat).getD sums.name }

/-- The mapping that the segment stands for on the generated line with index `line`. -/
def mapping (sources names : List String) (line : Nat) (s : Segment) : Mapping :=
  let generated : Position := ⟨line + 1, s.column⟩
  match s.reference with
  | none => ⟨generated, none, none, none⟩
  | some r =>
    { generated
      source := sources[r.source]?.map Json.string
      sourcePosition := some ⟨r.line + 1, r.column⟩
      name := (r.name.bind (names[·]?)).map Json.string }

end Segment

/-- The written segments of a line, and the sums after it. -/
def encodeLine (sums : Sums) : List Segment → List (List Char) × Sums
  | [] => ([], sums)
  | s :: rest =>
    let (written, sums') := encodeLine (s.advance sums) rest
    (Vlq.encode (s.fields sums) :: written, sums')

/-- The written lines. The sum of the generated columns starts anew on each of them. -/
def encodeLines (sums : Sums) : List (List Segment) → List (List Char)
  | [] => []
  | line :: lines =>
    let (written, sums) := encodeLine { sums with column := 0 } line
    [','].intercalate written :: encodeLines sums lines

/-- The mappings of a document as one text. -/
def encodeMappings (lines : List (List Segment)) : String :=
  String.ofList ([';'].intercalate (encodeLines {} lines))

/-- The document that lists sources, names and mappings. -/
def encodeDocument (sources names : List String) (lines : List (List Segment)) : Json :=
  .object
    [("version", .int 3), ("sources", .array (sources.map Json.string)),
      ("names", .array (names.map Json.string)), ("mappings", .string (encodeMappings lines))]

/-- The mappings that lines of segments stand for, the first line having the index `line`. -/
def segmentMappings (sources names : List String) (line : Nat) :
    List (List Segment) → List Mapping
  | [] => []
  | segments :: lines =>
    segments.map (Segment.mapping sources names line)
      ++ segmentMappings sources names (line + 1) lines

/-! ## Documents that move nothing -/

/-- The segments that send so many columns of the line with index `line` to themselves. -/
def unmovedColumns (line count : Nat) : List Segment :=
  (List.range count).map fun column => { column, reference := some { source := 0, line, column } }

/-- The segments that send the characters of lines to themselves, the first line having the index
`line`. -/
def unmovedSegments (line : Nat) : List String → List (List Segment)
  | [] => []
  | text :: rest =>
    unmovedColumns line (if rest.isEmpty then text.length else text.length + 1)
      :: unmovedSegments (line + 1) rest

/-- The document that sends every character of a text, which it calls `source`, to itself. -/
def unmovedDocument (source text : String) : Json :=
  encodeDocument [source] [] (unmovedSegments 0 (Text.lines text))

end BundleSize
