import BundleSize.SourceMap.Encoding

/-!
# Encoding mappings in sections

A document is written from mappings by looking up their sources and names in
the lists that it gives, line by line. The mappings have to be in the order of
the generated lines; within a line any order will do.

An indexed document is written from sections. A section has mappings of the
whole text, and is written as a document in which they are relative to the
place where the section begins (`Mapping.relative`); reading carries them back
(`Mapping.shift`). Only on the section's first line do columns change.
-/

namespace BundleSize

namespace Mapping

/-- The mapping, carried from the start of a text to a section that begins on the line with index
`line`, at `column`. -/
def shift (line column : Int) (m : Mapping) : Mapping :=
  let first := m.generated.line = 1
  { m with
    generated := ⟨m.generated.line + line, m.generated.column + if first then column else 0⟩ }

/-- The mapping, as a section has it that begins on the line with index `line`, at `column`. -/
def relative (line column : Int) (m : Mapping) : Mapping :=
  let first := m.generated.line = line + 1
  { m with
    generated := ⟨m.generated.line - line, m.generated.column - if first then column else 0⟩ }

/-- A document that gives these sources and names can list the mapping, which has one of three
shapes. -/
inductive IsListed (sources names : List String) : Mapping → Prop where
  | bare {p : Position} : p.Proper → IsListed sources names ⟨p, none, none, none⟩
  | sourced {p q : Position} {source : String} : p.Proper → q.Proper → source ∈ sources →
      IsListed sources names ⟨p, some (.string source), some q, none⟩
  | named {p q : Position} {source name : String} : p.Proper → q.Proper → source ∈ sources →
      name ∈ names → IsListed sources names ⟨p, some (.string source), some q, some (.string name)⟩

end Mapping

/-- The first index of a label. -/
def labelIndex (labels : List String) : Label → Nat
  | .string s => labels.idxOf s
  | _ => 0

/-- The segment that stands for the mapping on its line. -/
def Segment.ofMapping (sources names : List String) (m : Mapping) : Segment where
  column := m.generated.column.toNat
  reference := do
    let source ← m.source
    let place ← m.sourcePosition
    return {
      source := labelIndex sources source
      line := (place.line - 1).toNat
      column := place.column.toNat
      name := m.name.map (labelIndex names) }

/-- The segments of so many generated lines, from the one with index `line` on. -/
def segmentLines (sources names : List String) (line : Nat) :
    (count : Nat) → List Mapping → List (List Segment)
  | 0, _ => []
  | count + 1, mappings =>
    let here := fun m : Mapping => decide (m.generated.line = line + 1)
    (mappings.takeWhile here).map (Segment.ofMapping sources names)
      :: segmentLines sources names (line + 1) count (mappings.dropWhile here)

/-- The number of generated lines up to the last one with a mapping. -/
def lineCount (mappings : List Mapping) : Nat :=
  mappings.foldr (fun m count => max m.generated.line.toNat count) 0

/-- The flat document of mappings. -/
def encodeMap (sources names : List String) (mappings : List Mapping) : Json :=
  encodeDocument sources names (segmentLines sources names 0 (lineCount mappings) mappings)

/-- A part of an indexed document: the place in the generated text where it begins, which counts
from zero, the sources and names of its own, and the mappings that it has of the whole text. -/
structure MapSection where
  line : Nat
  column : Nat
  sources : List String
  names : List String
  mappings : List Mapping

namespace MapSection

/-- Each mapping can be listed with the section's sources and names, and stands where the section
begins or behind. -/
def IsWritable (s : MapSection) : Prop :=
  ∀ m ∈ s.mappings, m.IsListed s.sources s.names
    ∧ (⟨s.line + 1, s.column⟩ : Position).upTo m.generated = true

/-- The mappings as they are written. -/
def relativeMappings (s : MapSection) : List Mapping := s.mappings.map (·.relative s.line s.column)

def toJson (s : MapSection) : Json :=
  .object
    [("offset", .object [("line", .int s.line), ("column", .int s.column)]),
      ("map", encodeMap s.sources s.names s.relativeMappings)]

end MapSection

/-- The indexed document of sections. -/
def encodeSections (sections : List MapSection) : Json :=
  .object [("version", .int 3), ("sections", .array (sections.map MapSection.toJson))]

end BundleSize
