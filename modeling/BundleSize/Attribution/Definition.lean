import BundleSize.Json.Writer
import BundleSize.Offsets.Translator

/-!
# Definitions and what becomes of them

A definition is a named range of the code. In the minified text it occupies
a range of its own, or none; or its two ends were moved so far that its end
comes before its start on an earlier line, which is kept as a diagnostic.
-/

namespace BundleSize

/-- How a definition was declared. -/
inductive DefinitionKind where
  | function
  | binding
  | other (name : String)
  deriving Repr, DecidableEq

namespace DefinitionKind

def name : DefinitionKind → String
  | function => "function"
  | binding => "variable"
  | other name => name

def ofName : String → DefinitionKind
  | "function" => function
  | "variable" => binding
  | name => other name

end DefinitionKind

/-- A named range of the code, from `start` up to `stop`. -/
structure Definition where
  name : String
  kind : DefinitionKind
  start : Int
  stop : Int
  deriving Repr, DecidableEq

/-- A definition with the range that it occupies in the minified text. -/
structure AttributedRange where
  definition : Definition
  start : Int
  stop : Int
  deriving Repr, DecidableEq

/-- The number of characters that the definition occupies. -/
def AttributedRange.size (r : AttributedRange) : Int := r.stop - r.start

/-- Where a lookup led and where the way back from there led. -/
structure Trace where
  mapped : Option Position
  remapped : Option Position
  deriving Repr, DecidableEq

/-- One end of an inconsistent range. There is a trace when there is a table. -/
structure Endpoint where
  boundary : Boundary
  place : Position
  trace : Option Trace
  deriving Repr, DecidableEq

/-- A definition whose end was translated to an earlier line than its start. -/
structure Anomaly where
  name : String
  start : Int
  stop : Int
  minifiedStart : Int
  minifiedStop : Int
  endpoints : List Endpoint
  deriving Repr, DecidableEq

/-- A position as an object of line and column. -/
def Position.toJson (p : Position) : Json :=
  .object [("line", .int p.line), ("column", .int p.column)]

/-- A position or null. -/
def Position.toJson? (p : Option Position) : Json := (p.map toJson).getD .null

def Endpoint.toJson (e : Endpoint) : Json :=
  let place :=
    [("boundary", Json.string e.boundary.name), ("line", .int e.place.line),
      ("column", .int e.place.column)]
  match e.trace with
  | none => .object place
  | some trace =>
    .object (place ++
      [("mapped", Position.toJson? trace.mapped), ("remapped", Position.toJson? trace.remapped)])

def Anomaly.toJson (a : Anomaly) : Json :=
  .object
    [("name", .string a.name), ("range", .array [.int a.start, .int a.stop]),
      ("compressed", .array [.int a.minifiedStart, .int a.minifiedStop]),
      ("mapped", .array (a.endpoints.map Endpoint.toJson))]

/-- The diagnostic can be written. -/
def Anomaly.isWritable (a : Anomaly) : Bool := a.toJson.isWritable

/-- The two ranges have no number with too many digits. -/
def Anomaly.hasWritableRanges (a : Anomaly) : Bool :=
  [a.start, a.stop, a.minifiedStart, a.minifiedStop].all Text.isWritable

/-- The message of a run that does not tolerate anomalies. -/
def Anomaly.message (a : Anomaly) : String :=
  if a.hasWritableRanges then
    "Invalid negative range for " ++ a.name ++ ": (" ++ toString a.start ++ ", " ++ toString a.stop
      ++ ") -> (" ++ toString a.minifiedStart ++ ", " ++ toString a.minifiedStop ++ ")"
  else Text.tooLongMessage

end BundleSize
