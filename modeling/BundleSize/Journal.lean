/-!
# The journal of a run

What a run reports on its way is a list of records, each with a level. A
record is kept whatever the level; which of them are shown is decided by a
threshold when the journal is read.
-/

namespace BundleSize

/-- The weight of a record. -/
inductive Level where
  | debug | info | warning | error
  deriving Repr, DecidableEq

namespace Level

/-- The number that a threshold is compared with. -/
def rank : Level → Nat
  | debug => 10
  | info => 20
  | warning => 30
  | error => 40

def name : Level → String
  | debug => "DEBUG"
  | info => "INFO"
  | warning => "WARNING"
  | error => "ERROR"

end Level

/-- One record. -/
structure Record where
  level : Level
  message : String
  deriving Repr, DecidableEq

/-- The least weight of the records that are shown. -/
inductive Threshold where
  | all | debug | info | warning | error | critical
  deriving Repr, DecidableEq

namespace Threshold

def rank : Threshold → Nat
  | all => 0
  | debug => 10
  | info => 20
  | warning => 30
  | error => 40
  | critical => 50

def name : Threshold → String
  | all => "NOTSET"
  | debug => "DEBUG"
  | info => "INFO"
  | warning => "WARNING"
  | error => "ERROR"
  | critical => "CRITICAL"

/-- A threshold by its name; two of them have a second one. -/
def ofName? : String → Option Threshold
  | "NOTSET" => some all
  | "DEBUG" => some debug
  | "INFO" => some info
  | "WARNING" | "WARN" => some warning
  | "ERROR" => some error
  | "CRITICAL" | "FATAL" => some critical
  | _ => none

theorem ofName?_name (t : Threshold) : ofName? t.name = some t := by
  cases t <;> rfl

/-- The record is heavy enough to be shown. -/
def shows (t : Threshold) (r : Record) : Bool := t.rank ≤ r.level.rank

end Threshold

/-- The records of a run, in order. -/
abbrev Journal := List Record

/-- A computation that may fail and that keeps its journal when it does. -/
abbrev Logged (ε : Type) := ExceptT ε (StateM Journal)

namespace Logged

/-- Appends records to the journal. -/
def report (records : List Record) : Logged ε Unit := modifyThe Journal (· ++ records)

/-- Appends one record. -/
def note (level : Level) (message : String) : Logged ε Unit := report [⟨level, message⟩]

/-- The outcome and the journal of a computation that starts with an empty one. -/
def run (action : Logged ε α) : Except ε α × Journal := (ExceptT.run action).run []

end Logged

end BundleSize
