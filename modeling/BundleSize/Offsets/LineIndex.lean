import BundleSize.Search.Partition
import BundleSize.SourceMap.Mapping
import BundleSize.Text.Line

/-!
# Offsets and positions of a text

A text's characters are numbered from zero by their offsets, and addressed
by line and column in mapping tables. The index of a text's line starts
converts between the two. It carries the proof that its starts are those of
its text.

An offset before the text lies on the line before the first, with a column
counted from the start of the last one; a line number counts back from the
last line when it is not positive. Only a number that goes back past the
first line has no line at all.
-/

namespace BundleSize

/-- The lines of a text by the offsets of their starts. -/
structure LineIndex where
  text : String
  starts : Array Nat
  length : Nat
  starts_eq : starts = (Text.lineStarts text).toArray
  length_eq : length = text.length

/-- A line number that goes back past the first line. -/
inductive LineError where
  | noSuchLine (line : Int)
  deriving Repr, DecidableEq

def LineError.message : LineError → String
  | .noSuchLine _ => "list index out of range"

namespace LineIndex

/-- The index of a text. -/
def ofText (text : String) : LineIndex :=
  { text
    starts := (Text.lineStarts text).toArray
    length := text.length
    starts_eq := rfl
    length_eq := rfl }

/-- The start of the line with the given index; a negative index counts back from the end. -/
def start? (x : LineIndex) (index : Int) : Option Nat :=
  if 0 ≤ index then x.starts[index.toNat]?
  else if -x.starts.size ≤ index then x.starts[(x.starts.size + index).toNat]?
  else none

/-- The number of lines that start at or before an offset. -/
def linesUpTo (x : LineIndex) (offset : Int) : Nat :=
  partitionPoint x.starts fun start => (start : Int) ≤ offset

/-- The position of an offset. -/
def position (x : LineIndex) (offset : Int) : Position :=
  let line := x.linesUpTo offset
  ⟨line, offset - (x.start? ((line : Int) - 1)).getD 0⟩

/-- The offset of a position, at most the length of the text; a line after the last one stands at
the end of the text. -/
def offset (x : LineIndex) (p : Position) : Except LineError Int :=
  if p.line - 1 < x.starts.size then
    match x.start? (p.line - 1) with
    | some start => .ok (min (start + p.column) x.length)
    | none => .error (.noSuchLine p.line)
  else .ok x.length

end LineIndex

end BundleSize
