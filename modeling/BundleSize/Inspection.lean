import BundleSize.Extraction
import BundleSize.Minification.Minified
import BundleSize.Report.Report

/-!
# Inspections

An inspection attributes the size of a program to its definitions. The
definitions are those of the program's text. The size is measured in its
minified form, where a table leads from one to the other, or else in the
text itself. Both texts have to parse.

Parsing aside, an inspection is a function of the parsed program, the size
of what is measured, and the translator between the two.

An analysis inspects a file. With a minifier, the file's text is minified
first and measured in that form.
-/

namespace BundleSize

/-- What an inspection is asked besides its texts. -/
structure InspectionMode where
  filter : NameFilter := []
  /-- The first inconsistent range ends the inspection. -/
  strict : Bool := false

namespace Inspection

/-- The value of a pure computation. -/
def ofExcept (result : Except AnalysisError α) : Logged AnalysisError α := ExceptT.mk (pure result)

/-- Parses a text. -/
def parse [SyntaxParser] (text : String) : Logged AnalysisError Program := do
  let program ← ofExcept ((Program.read text).mapError .unparsable)
  Logged.note .debug
    ("Parsed " ++ toString text.length ++ " characters into " ++ program.root.kind.name)
  return program

/-- Attributes the definitions that the filter keeps. -/
def assign (program : Program) (translator : Translator) (mode : InspectionMode) :
    Logged AnalysisError (List AttributedRange × Attributor) := do
  let definitions := program.definitions mode.filter
  let (ranges, attributor, records) :=
    (Attributor.start translator mode.strict).assignAll definitions
  Logged.report records
  let ranges ← ofExcept (ranges.mapError .attribution)
  if definitions.isEmpty then Logged.note .info noDefinitionsMessage
  Logged.note .info
    ("Attributed " ++ toString ranges.length ++ " of " ++ toString definitions.length
      ++ " definitions (" ++ toString attributor.unmapped ++ " unmapped, "
      ++ toString attributor.aliased ++ " aliases, " ++ toString attributor.anomalies.length
      ++ " anomalies)")
  return (ranges, attributor)

/-- The report of a parsed program of which `size` characters are measured. -/
def report (program : Program) (size : Int) (translator : Translator) (mode : InspectionMode) :
    Logged AnalysisError Report := do
  let (ranges, attributor) ← assign program translator mode
  Logged.note .info "Sorting"
  let report ← ofExcept ((Report.build ranges size attributor.anomalies).mapError .percentage)
  Logged.note .info report.summary
  return report

end Inspection

/-- Inspects a text, measured in minified form if there is one. A parser is announced when it is
made for this inspection. -/
def inspect [SyntaxParser] (code : String) (minified : Option String) (table : Option PositionTable)
    (mode : InspectionMode) (newParser : Bool) : Logged AnalysisError Report := do
  if minified.isSome ∧ table.isNone then throw .tableRequired
  if newParser then Logged.note .debug "Initialized parser for javascript"
  Logged.note .info "Parsing code"
  let program ← Inspection.parse code
  let measured ←
    match minified with
    | some text => Inspection.parse text
    | none => pure program
  Inspection.report program measured.size (Translator.ofTexts code minified table) mode

/-- Analyses the file that a text names. -/
def analyse [SyntaxParser] (file : String) (minifier : Option Minifier) (mode : InspectionMode) :
    Run Report := do
  let code ← Run.readText (Path.ofText file)
  Run.note .info ("Read " ++ toString code.length ++ " characters from " ++ file)
  match minifier with
  | none => Run.ofLogged (inspect code none none mode true)
  | some minifier =>
    let output ← minifier.minify code
    let table ← Run.ofExcept (output.table.toPositions.mapError .map)
    Run.ofLogged (inspect code (some output.code) (some table) mode true)

end BundleSize
