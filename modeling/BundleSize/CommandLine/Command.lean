import BundleSize.CommandLine.Arguments
import BundleSize.Inspection

/-!
# The command

The command prints the report of one file. A command line that asks for
help or is wrong ends it before anything is looked at. A failure is
reported and ends it with status one: a file that is not there, an input or
a setting that cannot be used, an analysis that fails. Any other failure is
nobody's, and the command breaks off with it.
-/

namespace BundleSize

/-- How the command ends. -/
inductive CommandEnding where
  | finished (status : Nat)
  /-- The command line decided. -/
  | stopped (status : Nat)
  | brokenOff (error : AnalysisError)
  deriving Repr

/-- How the command ends and what it has printed. -/
structure CommandResult where
  ending : CommandEnding
  output : String := ""
  diagnostics : String := ""
  deriving Repr

namespace Command

/-- The line that shows how the command is used. -/
def usage : String := "usage: elmjs-inspector [-h] [-t] [--limit LIMIT] filename\n"

/-- What is printed when help is asked for. -/
def help : String :=
  usage ++ "\nAnalyse your elm.js file size with this tool.\n\npositional arguments:\n"
    ++ "  filename       The file to analyze\n\noptions:\n"
    ++ "  -h, --help     show this help message and exit\n"
    ++ "  -t, --terser   Run terser on the file before calculating the scores\n"
    ++ "  --limit LIMIT  Only print the N largest definitions\n"

/-- The end that a command line brings about by itself. -/
def stop : CommandStop → CommandResult
  | .help => { ending := .stopped 0, output := help }
  | .usage error =>
    { ending := .stopped 2
      diagnostics := usage ++ "elmjs-inspector: error: " ++ error.message ++ "\n" }

/-- The report that is asked for. -/
def report [SyntaxParser] [PatternEngine] (a : CommandArguments) (environment : Variables) :
    Run Report := do
  let settings ← Run.ofExcept ((Settings.read environment).mapError .settings)
  Run.note .info ("Analyzing: " ++ a.file)
  Run.note .info ("Terser: " ++ if a.minify then "True" else "False")
  let minifier ← Run.ofExcept (settings.minifier.mapError .settings)
  let filter ← Run.ofExcept (settings.filter.mapError .pattern)
  analyse a.file (if a.minify then some minifier else none)
    { filter, strict := settings.strictRanges }

/-- What is reported of a failure, if the command provides for it. -/
def failureMessage? (e : AnalysisError) : Option String :=
  match e.family with
  | .missingFile path => some ("File not found: " ++ path)
  | .input => some ("Invalid input or configuration: " ++ e.message)
  | .analysis => some ("Analysis failed: " ++ e.message)
  | .unforeseen => none

/-- The end of a command that fails, with what it has printed until then. -/
def fail (output : String) (e : AnalysisError) : StateM Workspace CommandResult := do
  match failureMessage? e with
  | some message =>
    modify fun w => w.report [⟨.error, message⟩]
    return { ending := .finished 1, output }
  | none => return { ending := .brokenOff e, output }

/-- Prints a report. The entries are there before it is seen whether the coverage is in range. -/
def print (report : Report) (limit : Option Int) : StateM Workspace CommandResult := do
  match report.toText limit with
  | .error e => fail (report.entryLines limit) (.percentage e)
  | .ok output =>
    if !report.anomalies.isEmpty then
      modify fun w => w.report
        [⟨.warning, toString report.anomalies.length
          ++ " definitions had inconsistent ranges and were skipped"⟩]
    return { ending := .finished 0, output }

/-- The end of the command with the given outcome. -/
def conclude (limit : Option Int) :
    Except AnalysisError Report → StateM Workspace CommandResult
  | .ok report => print report limit
  | .error e => fail "" e

/-- Runs the command. The threshold for records is settled first of all. -/
def run [SyntaxParser] [PatternEngine] (arguments : List String) (environment : Variables) :
    StateM Workspace CommandResult := do
  match thresholdOf (logLevelOf environment) with
  | .error e => return { ending := .brokenOff (.settings e) }
  | .ok threshold =>
    match CommandArguments.ofTexts arguments with
    | .error e => return stop e
    | .ok a =>
      let result ← conclude a.limit (← (report a environment).run)
      modify fun w => { w with journal := w.journal.filter threshold.shows }
      return result

end Command

end BundleSize
