import BundleSize.Json.Reader
import BundleSize.SourceMap.Mapping
import BundleSize.SourceMap.Vlq
import BundleSize.Text.Integer
import BundleSize.Text.Line

/-!
# Decoding source map documents

A document of version 3 lists its mappings in one string: lines are parted
by semicolons, the segments of a line by commas. A segment is a sequence of
one, four or five numbers, each the difference to the number of the same
kind before it: the generated column, which restarts on every line, and the
source's index, the line and the column there and the index of a
symbol's name, which run through the whole document.

An indexed document is a list of sections. Each holds a document of its own
and the place in the generated text where its mappings begin; the column of
that place counts on the section's first line only. The place is added to the
mappings as they come. A place that is written as a decimal makes doubles of
their numbers, so that a mapping may come to stand between two columns, or
nowhere.
-/

namespace BundleSize

/-- A value of a kind that the document's format does not provide for at its place. -/
inductive ShapeFault where
  /-- The sections are no sequence. -/
  | notASequence (found : Json)
  /-- A section, an offset or a section's document is no object. -/
  | notAnObject (found : Json)
  /-- The sources or the names are neither a sequence nor empty. -/
  | notACollection (found : Json)
  /-- The sources or the names are an object, which holds nothing at an index. -/
  | notIndexed (index : Int)
  /-- A section's line or column offset is no number. -/
  | notAnOffset (found : Json)
  /-- A decimal offset is added to a number beyond double precision. -/
  | outOfRange (number : Int)
  deriving Repr, BEq

/-- Why a document is not accepted. -/
inductive MapError where
  | notJson (error : Json.ReadError)
  | unsupportedVersion
  | sectionWithoutMap
  | missingMappings
  | invalidDigit (c : Char) (segment : String)
  | truncatedNumber (segment : String)
  | fieldCount (segment : String) (count : Nat)
  | sourceOutOfRange (index : Int)
  | negativePosition (segment : String)
  | malformed (fault : ShapeFault)
  /-- The source that was selected holds a number that is too long to be shown. -/
  | unshownSource
  /-- There is a table, but not all of its positions are whole numbers. -/
  | fractional
  deriving Repr, BEq

/-- The word for a value's kind in messages. -/
def Json.kindWord : Json → String
  | .null => "NoneType"
  | .bool _ => "bool"
  | .int _ => "int"
  | .decimal _ _ => "float"
  | .nonFinite _ => "float"
  | .string _ => "str"
  | .array _ => "list"
  | .object _ => "dict"

def ShapeFault.message : ShapeFault → String
  | .notASequence found => "'" ++ found.kindWord ++ "' object is not iterable"
  | .notAnObject found => "'" ++ found.kindWord ++ "' object has no attribute 'get'"
  | .notACollection found => "object of type '" ++ found.kindWord ++ "' has no len()"
  | .notIndexed index => toString index
  | .notAnOffset found =>
    "unsupported operand type(s) for +: 'int' and '" ++ found.kindWord ++ "'"
  | .outOfRange _ => "int too large to convert to float"

def MapError.message : MapError → String
  | .notJson error => "Source map is not valid JSON: " ++ error.message
  | .unsupportedVersion => "Only version 3 source maps are supported"
  | .sectionWithoutMap => "Indexed source map sections must embed a 'map'"
  | .missingMappings => "Source map has no 'mappings' string"
  | .invalidDigit c segment =>
    "Invalid base64 character " ++ Text.quoted (String.singleton c) ++ " in mapping "
      ++ Text.quoted segment
  | .truncatedNumber segment => "Truncated VLQ value in mapping " ++ Text.quoted segment
  | .fieldCount segment count =>
    "Segment " ++ Text.quoted segment ++ " has " ++ toString count ++ " fields"
  | .sourceOutOfRange index =>
    if Text.isWritable index then "Source index " ++ toString index ++ " out of range"
    else Text.tooLongMessage
  | .negativePosition segment => "Negative position decoded from segment " ++ Text.quoted segment
  | .malformed fault => fault.message
  | .unshownSource => Text.tooLongMessage
  | .fractional => "positions that are no whole numbers are not looked up"

namespace MapError

/-- The error is the refusal of a document. Its message has to be written for that, which a source
index that is too long prevents. -/
def refuses : MapError → Bool
  | .malformed _ => false
  | .sourceOutOfRange index => Text.isWritable index
  | .unshownSource => false
  | .fractional => false
  | _ => true

end MapError

/-- What a document lists under one of its members, by index. -/
inductive Listing where
  | labels (items : List Json)
  /-- An object: it has a size, but nothing at an index. -/
  | keyed (size : Nat)
  /-- A value without a size. -/
  | unsized (found : Json)

namespace Listing

/-- A string lists its characters; an absent or empty value lists nothing. -/
def ofJson (value : Option Json) : Listing :=
  match value with
  | none => .labels []
  | some value =>
    if value.isEmpty then .labels []
    else
      match value with
      | .array items => .labels items
      | .string s => .labels (s.toList.map fun c => .string (String.singleton c))
      | .object members => .keyed members.length
      | other => .unsized other

/-- The label at an index, when the index is in range. -/
def get? (listing : Listing) (index : Int) : Except ShapeFault (Option Json) :=
  if index < 0 then .ok none
  else
    match listing with
    | .labels items => .ok items[index.toNat]?
    | .keyed size => if index < size then .error (.notIndexed index) else .ok none
    | .unsized found => .error (.notACollection found)

end Listing

/-- The label of a value: null stands for none. -/
def labelOf : Json → Option Label
  | .null => none
  | value => some value

/-- The sums of the differences so far, one for each kind of number. -/
structure Sums where
  column : Int := 0
  source : Int := 0
  line : Int := 0
  sourceColumn : Int := 0
  name : Int := 0
  deriving Repr, DecidableEq

/-- The sources and names of a document. -/
structure Legend where
  sources : Listing
  names : Listing

/-- Where a document's mappings begin in the generated text: the values that its lines, and the
columns of its first line, are added to. -/
structure SectionOffset where
  line : Json := .int 0
  column : Json := .int 0

/-- A line or a column of the generated text. -/
inductive Coordinate where
  | whole (n : Int)
  | double (x : Double)
  deriving Repr, DecidableEq

/-- A number with an offset added to it. -/
def addOffset (number : Int) : Json → Except ShapeFault Coordinate
  | .int n => .ok (.whole (number + n))
  | .bool b => .ok (.whole (number + b.toNat))
  | offset =>
    match offset.double?, Double.ofInt? number with
    | none, _ => .error (.notAnOffset offset)
    | some _, none => .error (.outOfRange number)
    | some x, some y => .ok (.double (y.add x))

/-- A mapping at its place in the whole of an indexed document. -/
inductive PlacedMapping where
  | whole (mapping : Mapping)
  /-- The line or the column has become a double. The mapping itself is as its section has it. -/
  | fractional (line column : Coordinate) (relative : Mapping)
  deriving Repr, BEq

namespace PlacedMapping

/-- The mapping with another line and column. -/
def ofCoordinates (m : Mapping) : (line column : Coordinate) → PlacedMapping
  | .whole line, .whole column => .whole { m with generated := ⟨line, column⟩ }
  | line, column => .fractional line column m

/-- The mapping, when its place is whole. -/
def whole? : PlacedMapping → Option Mapping
  | whole m => some m
  | fractional .. => none

def source : PlacedMapping → Option Label
  | whole m => m.source
  | fractional _ _ m => m.source

end PlacedMapping

/-- The mapping of a section, carried to where the section begins. -/
def SectionOffset.place (offset : SectionOffset) (m : Mapping) :
    Except ShapeFault PlacedMapping := do
  let column ← addOffset m.generated.column (if m.generated.line = 1 then offset.column else .int 0)
  let line ← addOffset m.generated.line offset.line
  return .ofCoordinates m line column

/-- The numbers of a segment. -/
def segmentFields (segment : List Char) : Except MapError (List Int) :=
  match Vlq.decode segment with
  | .ok fields => .ok fields
  | .error (.invalidDigit c) => .error (.invalidDigit c (String.ofList segment))
  | .error .truncated => .error (.truncatedNumber (String.ofList segment))

/-- The sums after a segment, with the source and name that it selects. -/
def addFields (legend : Legend) (sums : Sums) (segment : String) :
    List Int → Except MapError (Sums × Option (Json × Option Json))
  | [column] => .ok ({ sums with column := sums.column + column }, none)
  | column :: source :: line :: sourceColumn :: extra => do
    if 1 < extra.length then throw (.fieldCount segment (4 + extra.length))
    let sums : Sums :=
      { sums with
        column := sums.column + column
        source := sums.source + source
        line := sums.line + line
        sourceColumn := sums.sourceColumn + sourceColumn }
    match legend.sources.get? sums.source with
    | .error fault => throw (.malformed fault)
    | .ok none => throw (.sourceOutOfRange sums.source)
    | .ok (some label) =>
      match extra with
      | [] => return (sums, some (label, none))
      | name :: _ =>
        let sums := { sums with name := sums.name + name }
        match legend.names.get? sums.name with
        | .error fault => throw (.malformed fault)
        | .ok named => return (sums, some (label, named))
  | fields => .error (.fieldCount segment fields.length)

/-- The mapping of a segment on the generated line with index `line`. -/
def decodeSegment (legend : Legend) (line : Nat) (sums : Sums) (segment : List Char) :
    Except MapError (Sums × Mapping) := do
  let fields ← segmentFields segment
  let (sums, selected) ← addFields legend sums (String.ofList segment) fields
  if sums.column < 0 ∨ sums.line < 0 ∨ sums.sourceColumn < 0 then
    throw (.negativePosition (String.ofList segment))
  let generated : Position := ⟨line + 1, sums.column⟩
  match selected with
  | none => return (sums, ⟨generated, none, none, none⟩)
  | some (label, named) =>
    return (sums,
      ⟨generated, labelOf label, some ⟨sums.line + 1, sums.sourceColumn⟩, named.bind labelOf⟩)

/-- The mappings of a line's segments, each put in its place before the next one is looked at; an
empty segment has none. -/
def decodeLine (place : Mapping → Except ShapeFault α) (legend : Legend) (line : Nat)
    (sums : Sums) : List (List Char) → Except MapError (Sums × List α)
  | [] => .ok (sums, [])
  | [] :: segments => decodeLine place legend line sums segments
  | segment :: segments => do
    let (sums, mapping) ← decodeSegment legend line sums segment
    let placed ← (place mapping).mapError .malformed
    let (sums, later) ← decodeLine place legend line sums segments
    return (sums, placed :: later)

/-- The mappings of the lines from the one with index `line` on. -/
def decodeLines (place : Mapping → Except ShapeFault α) (legend : Legend) (line : Nat)
    (sums : Sums) : List (List Char) → Except MapError (List α)
  | [] => .ok []
  | text :: lines => do
    let (sums, mappings) ←
      decodeLine place legend line { sums with column := 0 } (Text.splitAt ',' text)
    let later ← decodeLines place legend (line + 1) sums lines
    return mappings ++ later

/-- The mappings that a document lists itself, put in their places. -/
def decodeMappings (place : Mapping → Except ShapeFault α) (members : List (String × Json)) :
    Except MapError (List α) :=
  match Json.member? "mappings" members with
  | some (.string text) =>
    let legend : Legend :=
      { sources := .ofJson (Json.member? "sources" members)
        names := .ofJson (Json.member? "names" members) }
    decodeLines place legend 0 {} (Text.splitAt ';' text.toList)
  | _ => .error .missingMappings

/-- The place where a section's mappings begin. -/
def sectionOffset (section_ : List (String × Json)) : Except ShapeFault SectionOffset :=
  match Json.member? "offset" section_ with
  | none => .ok {}
  | some (.object offset) =>
    .ok
      { line := (Json.member? "line" offset).getD (.int 0)
        column := (Json.member? "column" offset).getD (.int 0) }
  | some other => if other.isEmpty then .ok {} else .error (.notAnObject other)

/-- The mappings of one section. -/
def decodeSection : Json → Except MapError (List PlacedMapping)
  | .object section_ =>
    match Json.member? "map" section_ with
    | none => .error .sectionWithoutMap
    | some document => do
      let offset ← (sectionOffset section_).mapError .malformed
      match document with
      | .object members => decodeMappings offset.place members
      | other => .error (.malformed (.notAnObject other))
  | other => .error (.malformed (.notAnObject other))

/-- The mappings of all sections, in order. -/
def decodeSections : List Json → Except MapError (List PlacedMapping)
  | [] => .ok []
  | section_ :: sections => do
    let mappings ← decodeSection section_
    let later ← decodeSections sections
    return mappings ++ later

/-- The sections that an indexed document lists. -/
def sectionList : Json → Except ShapeFault (List Json)
  | .array items => .ok items
  | .string s => .ok (s.toList.map fun c => .string (String.singleton c))
  | .object members => .ok (members.map fun m => .string m.1)
  | other => .error (.notASequence other)

/-- The mappings of a document, flat or indexed. -/
def decodeDocument : Json → Except MapError (List PlacedMapping)
  | .object members =>
    if ((Json.member? "version" members).any (Json.isNumber 3)) then
      match Json.member? "sections" members with
      | none => (decodeMappings .ok members).map (·.map .whole)
      | some value =>
        match sectionList value with
        | .error fault => .error (.malformed fault)
        | .ok sections => decodeSections sections
    else .error .unsupportedVersion
  | _ => .error .unsupportedVersion

end BundleSize
