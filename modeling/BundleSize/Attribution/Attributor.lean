import BundleSize.Attribution.Definition
import BundleSize.Json.Writer
import BundleSize.Offsets.Memo

/-!
# Attributing ranges

A definition's two ends are translated, and the result falls into one of
four classes. A definition of which an end goes nowhere was removed.
One whose end does not come before its start is kept. One whose end comes
before its start on the same line has no code of its own: it names a value
that stands elsewhere. Any other range is inconsistent: it is dropped with
a diagnostic, or ends the run in strict mode. A dropped one is counted before
its diagnostic is reported; a diagnostic with a number that is too long to be
written ends the run there.

The class depends on the definition and the translator alone; the
attributor adds the memory of answers and the counts of the classes.
-/

namespace BundleSize

/-- What becomes of a definition. -/
inductive Outcome where
  | kept (range : AttributedRange)
  | unmapped
  | aliased
  | inconsistent (anomaly : Anomaly)
  deriving Repr, DecidableEq

/-- Why attribution stops. -/
inductive AttributionError where
  | line (error : LineError)
  | inconsistent (anomaly : Anomaly)
  /-- An anomaly was tolerated, but its diagnostic cannot be written. -/
  | unwritable (anomaly : Anomaly)
  deriving Repr, DecidableEq

def AttributionError.message : AttributionError → String
  | .line error => error.message
  | .inconsistent anomaly => anomaly.message
  | .unwritable _ => Text.tooLongMessage

namespace Translator

/-- The diagnostic of one end of a range. -/
def endpoint (t : Translator) (offset : Int) (b : Boundary) : Endpoint :=
  let trace := t.table.map fun table =>
    let mapped := table.generated? (t.code.position (b.target offset)) .leastUpper
    ({ mapped, remapped := (mapped.bind table.origin?).map (·.position) } : Trace)
  { boundary := b, place := t.code.position offset, trace }

/-- The diagnostic of a definition with its translated ends. -/
def diagnose (t : Translator) (d : Definition) (start stop : Int) : Anomaly :=
  { name := d.name
    start := d.start
    stop := d.stop
    minifiedStart := start
    minifiedStop := stop
    endpoints := [t.endpoint d.start .left, t.endpoint d.stop .right] }

/-- The class of a definition with its translated ends. -/
def classify (t : Translator) (d : Definition) : Option Int → Option Int → Outcome
  | some start, some stop =>
    if start ≤ stop then .kept ⟨d, start, stop⟩
    else if (t.minified.position start).line = (t.minified.position stop).line then .aliased
    else .inconsistent (t.diagnose d start stop)
  | _, _ => .unmapped

/-- The class of a definition. -/
def outcome (t : Translator) (d : Definition) : Except LineError Outcome := do
  let start ← t.translate d.start .left
  let stop ← t.translate d.stop .right
  return t.classify d start stop

end Translator

/-- The state of attribution: the memory, the mode, and the counts and diagnostics so far. -/
structure Attributor where
  memo : Memo
  strict : Bool
  unmapped : Nat := 0
  aliased : Nat := 0
  anomalies : List Anomaly := []

namespace Attributor

/-- An attributor that has seen nothing yet. -/
def start (translator : Translator) (strict : Bool) : Attributor :=
  { memo := { translator }, strict }

/-- What attribution of one definition gives: its result, the state after it and its records. -/
structure Step where
  result : Except AttributionError (Option AttributedRange)
  state : Attributor
  records : List Record

/-- Counts and reports an outcome. -/
def conclude (a : Attributor) (d : Definition) (records : List Record) : Outcome → Step
  | .kept range => ⟨.ok (some range), a, records⟩
  | .unmapped =>
    ⟨.ok none, { a with unmapped := a.unmapped + 1 },
      records ++ [⟨.debug, "Dropping " ++ d.name ++ ": removed by minification"⟩]⟩
  | .aliased =>
    ⟨.ok none, { a with aliased := a.aliased + 1 },
      records ++
        [⟨.debug, "Dropping " ++ d.name ++ ": aliasing declaration with no own code"⟩]⟩
  | .inconsistent anomaly =>
    if a.strict then ⟨.error (.inconsistent anomaly), a, records⟩
    else
      let counted := { a with anomalies := a.anomalies ++ [anomaly] }
      if anomaly.isWritable then
        ⟨.ok none, counted,
          records ++
            [⟨.warning,
              "Invalid negative range, dropping definition: " ++ anomaly.toJson.write⟩]⟩
      else ⟨.error (.unwritable anomaly), counted, records⟩

/-- Attributes one definition. -/
def assign (a : Attributor) (d : Definition) : Step :=
  let (start, memo, startRecords) := a.memo.translate d.start .left
  match start with
  | .error e => ⟨.error (.line e), { a with memo }, startRecords⟩
  | .ok start =>
    let (stop, memo, stopRecords) := memo.translate d.stop .right
    match stop with
    | .error e => ⟨.error (.line e), { a with memo }, startRecords ++ stopRecords⟩
    | .ok stop =>
      let a := { a with memo }
      a.conclude d (startRecords ++ stopRecords) (memo.translator.classify d start stop)

/-- Attributes definitions one after the other, up to the first that ends the run. The kept
ranges, the state and the records are those of the definitions before that one. -/
def assignAll (a : Attributor) :
    List Definition → Except AttributionError (List AttributedRange) × Attributor × List Record
  | [] => (.ok [], a, [])
  | d :: ds =>
    let step := a.assign d
    match step.result with
    | .error e => (.error e, step.state, step.records)
    | .ok kept =>
      let (later, state, records) := step.state.assignAll ds
      (later.map (kept.toList ++ ·), state, step.records ++ records)

end Attributor

end BundleSize
