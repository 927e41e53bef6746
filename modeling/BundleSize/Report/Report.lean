import BundleSize.Attribution.Definition
import BundleSize.Journal
import BundleSize.Report.Percentage

/-!
# Size reports

A report ranks the attributed definitions by the number of characters they
occupy, the largest first; definitions of equal size stay in the order in
which they were defined. It also says how much of the minified program they
cover together. A limit cuts the ranking, never the totals: a negative
limit leaves off that many entries at the end.

Whoever a report is given to gets the entries one by one and the totals
last. The coverage is computed for the totals, so that the entries have been
given away when it turns out to be out of range. A number that is shown must
not have too many digits; the totals are shown as soon as the report is built.
-/

namespace BundleSize

/-- One line of a ranking. -/
structure Entry where
  name : String
  kind : DefinitionKind
  size : Int
  percentage : String
  deriving Repr, DecidableEq

/-- The ranked sizes of the definitions of one program. -/
structure Report where
  entries : List Entry
  total : Int
  attributed : Int
  anomalies : List Anomaly
  deriving Repr, DecidableEq

/-- The larger comes first. -/
def largerFirst (a b : AttributedRange) : Bool := b.size ≤ a.size

/-- Ranges from the largest to the smallest; equal ones keep their order. -/
def rank (ranges : List AttributedRange) : List AttributedRange := ranges.mergeSort largerFirst

/-- The line of a range in a ranking of a program of `total` characters. -/
def entryOf (total : Int) (r : AttributedRange) : Except PercentageError Entry := do
  let percentage ← Percentage.render r.size total
  return { name := r.definition.name, kind := r.definition.kind, size := r.size, percentage }

/-- The characters that entries occupy together. -/
def totalSize (entries : List Entry) : Int := entries.foldr (fun e n => e.size + n) 0

namespace Report

/-- Both totals can be written. -/
def hasWritableTotals (r : Report) : Bool := Text.isWritable r.attributed && Text.isWritable r.total

/-- The report of attributed ranges in a program of `total` characters. -/
def build (ranges : List AttributedRange) (total : Int) (anomalies : List Anomaly) :
    Except PercentageError Report := do
  let entries ← (rank ranges).mapM (entryOf total)
  let report : Report := { entries, total, attributed := totalSize entries, anomalies }
  if report.hasWritableTotals then return report else throw .tooLong

/-- What is reported when a report has been built. -/
def summary (r : Report) : String :=
  "Attributed " ++ toString r.attributed ++ " of " ++ toString r.total ++ " characters to "
    ++ toString r.entries.length ++ " definitions"

/-- The percentage of the program that all definitions cover together. -/
def coverage (r : Report) : Except PercentageError String :=
  Percentage.render r.attributed r.total

/-- The entries up to a limit. -/
def top (r : Report) : Option Int → List Entry
  | none => r.entries
  | some limit =>
    if 0 ≤ limit then r.entries.take limit.toNat
    else r.entries.take (r.entries.length - limit.natAbs)

/-- The line with the totals. -/
def totalsLine (r : Report) (coverage : String) : String :=
  "Range sum: " ++ toString r.attributed ++ " total: " ++ toString r.total ++ ", analyzed "
    ++ coverage

/-- The lines of the entries up to a limit. -/
def entryLines (r : Report) (limit : Option Int) : String :=
  String.join ((r.top limit).map fun e => e.percentage ++ ": " ++ e.name ++ "\n")

/-- The line with the totals, when the coverage is in range and the totals can be written. -/
def writtenTotals (r : Report) : Except PercentageError String := do
  let coverage ← r.coverage
  if r.hasWritableTotals then return r.totalsLine coverage else throw .tooLong

/-- The report as text: a line for each entry up to the limit, then the totals. -/
def toText (r : Report) (limit : Option Int) : Except PercentageError String := do
  let totals ← r.writtenTotals
  return r.entryLines limit ++ totals ++ "\n"

/-- The size of the entry can be written. -/
def isRecordable (e : Entry) : Bool := Text.isWritable e.size

/-- The entries up to a limit as records of one level, as far as their sizes can be written. -/
def entryRecords (r : Report) (level : Level) (limit : Option Int) : List Record :=
  ((r.top limit).takeWhile isRecordable).map fun e =>
    ⟨level, e.percentage ++ ": " ++ e.name ++ " (" ++ toString e.size ++ ")"⟩

/-- The report as records of one level. -/
def toRecords (r : Report) (level : Level) (limit : Option Int) :
    Except PercentageError (List Record) := do
  if !(r.top limit).all isRecordable then throw .tooLong
  let totals ← r.writtenTotals
  return r.entryRecords level limit ++ [⟨level, totals⟩]

def entryToJson (e : Entry) : Json :=
  .object
    [("name", .string e.name), ("kind", .string e.kind.name), ("size", .int e.size),
      ("percentage", .string e.percentage)]

/-- The members of the report's object form, the entries cut at the limit. -/
def members (r : Report) (limit : Option Int) : Except PercentageError (List (String × Json)) := do
  let coverage ← r.coverage
  return [
    ("entries", .array ((r.top limit).map entryToJson)),
    ("total_entries", .int r.entries.length),
    ("total_minified_size", .int r.total),
    ("attributed_size", .int r.attributed),
    ("coverage_percentage", .string coverage),
    ("anomalies", .array (r.anomalies.map Anomaly.toJson))]

end Report

end BundleSize
