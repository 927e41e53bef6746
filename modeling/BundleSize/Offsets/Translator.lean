import BundleSize.SourceMap.Table
import BundleSize.Offsets.LineIndex

/-!
# Translating offsets

An offset in the code is translated into an offset in its minified form.
Which mapping answers depends on the end of a range that the offset is. The
start of a range goes to the first generated character at or after it. The
end of a range is exclusive: the last character of the range is looked up
instead, and if that very character has a mapping the result is moved past
it. So the end of a construct is not carried over into the construct that
begins right there.

Without a table the minified form is the code itself and nothing moves. An
offset that goes nowhere is reported. It and its place are numbers of the
text, which are short enough to be written as long as the text has fewer
than 10^4300 characters; other offsets are not asked for.
-/

namespace BundleSize

/-- The ends of a range: the inclusive start and the exclusive end. -/
inductive Boundary where
  | left | right
  deriving Repr, DecidableEq, Hashable

namespace Boundary

def name : Boundary → String
  | left => "left"
  | right => "right"

def ofName? : String → Option Boundary
  | "left" => some left
  | "right" => some right
  | _ => none

/-- The character that is looked up for an offset at this end. -/
def target : Boundary → Int → Int
  | left, offset => offset
  | right, offset => if 0 < offset then offset - 1 else offset

end Boundary

/-- A code text, its minified form and the table between them. -/
structure Translator where
  code : LineIndex
  minified : LineIndex
  table : Option PositionTable

namespace Translator

/-- Without a minified text the code stands for it. -/
def ofTexts (code : String) (minified : Option String) (table : Option PositionTable) :
    Translator :=
  let code := LineIndex.ofText code
  { code, minified := (minified.map LineIndex.ofText).getD code, table }

/-- Where an offset goes; `none` when no mapping lies at or after it. -/
def translate (t : Translator) (offset : Int) (b : Boundary) : Except LineError (Option Int) :=
  match t.table with
  | none => .ok (some offset)
  | some table =>
    let target := b.target offset
    let place := t.code.position target
    match table.find? place .leastUpper with
    | none => .ok none
    | some m => do
      let found ← t.minified.offset m.generated
      return some (if target ≠ offset ∧ m.sourcePosition = some place then found + 1 else found)

/-- What is reported when an offset goes nowhere. -/
def unmappedMessage (t : Translator) (offset : Int) (b : Boundary) : String :=
  let place := t.code.position (b.target offset)
  "Offset " ++ toString offset ++ " (" ++ toString place.line ++ ":" ++ toString place.column
    ++ ") is unmapped"

end Translator

end BundleSize
