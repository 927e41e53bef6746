import BundleSize.SourceMap.Mapping
import BundleSize.Offsets.LineIndex
import BundleSize.SourceMap.Table

/-!
# Columns in code units

Consumers of source maps count the columns of a line in the code units of UTF-16, of which
a character beyond the basic plane takes two. A table of such columns agrees with columns
that are counted in characters only up to the first such character of a line.
-/

namespace BundleSize

/-- The number of UTF-16 code units that a character takes. -/
def Text.codeUnits (c : Char) : Nat := if c.toNat ≤ 0xffff then 1 else 2

/-- The position behind the first characters of a text, with its column counted in code units. -/
def LineIndex.unitPosition (x : LineIndex) (offset : Nat) : Position :=
  Position.behind Text.codeUnits (x.text.toList.take offset)

/-- The table that sends every character of a text to itself, with columns counted in code units on
both sides. -/
def PositionTable.ofUnits (text : String) (source : Label) : PositionTable :=
  ofMappings ((List.range text.length).map fun offset =>
    let p := (LineIndex.ofText text).unitPosition offset
    ⟨p, labelOf source, some p, none⟩) (labelOf source)

/-- Counted in characters, the column of the offset is that of the second code unit of a character,
counted in code units. -/
def LineIndex.Splits (x : LineIndex) (offset : Nat) : Prop :=
  ∃ before c behind, x.text.toList = before ++ c :: behind ∧ Text.codeUnits c = 2
    ∧ x.position offset = ⟨(Position.behind Text.codeUnits before).line,
      (Position.behind Text.codeUnits before).column + 1⟩

end BundleSize
