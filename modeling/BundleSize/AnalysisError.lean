import BundleSize.Attribution.Attributor
import BundleSize.Files.Tree
import BundleSize.Minification.Options
import BundleSize.Pattern.Reader
import BundleSize.Report.Percentage
import BundleSize.Settings
import BundleSize.SourceMap.Decoding
import BundleSize.Syntax.Program

/-!
# Errors of an analysis

An analysis fails for one of the reasons of its parts. Each reason has a
message and a kind, the word by which answers tell reasons apart. The kinds
fall into four families, and those decide how the command line ends: a file
that is not there, an input that cannot be used, an analysis that fails, and
all else, which nobody provides for.
-/

namespace BundleSize

/-- Why an analysis gives no report. -/
inductive AnalysisError where
  | unparsable (error : SyntaxError)
  | minifier (failure : MinifierFailure)
  | map (error : MapError)
  | attribution (error : AttributionError)
  | percentage (error : PercentageError)
  | pattern (error : Pattern.ReadError)
  | settings (error : SettingsError)
  | decoding (error : Text.DecodingError)
  | file (error : FileError)
  /-- Minified code was given without a table that leads to it. -/
  | tableRequired
  deriving Repr

/-- What a failure is about. -/
inductive ErrorFamily where
  | missingFile (path : String)
  | input
  | analysis
  | unforeseen
  deriving Repr, DecidableEq

namespace AnalysisError

def message : AnalysisError → String
  | unparsable error => error.message
  | minifier failure => failure.message
  | map error => error.message
  | attribution error => error.message
  | percentage error => error.message
  | pattern error => error.message
  | settings error => error.message
  | decoding error => error.message
  | file error => error.message
  | tableRequired => "A mapping table is required to attribute minified code"

/-- The kind of a value that is out of place in a source map. -/
def kindOfShape : ShapeFault → String
  | .notAnObject _ => "AttributeError"
  | .notIndexed _ => "KeyError"
  | .outOfRange _ => "OverflowError"
  | _ => "TypeError"

/-- The kind of an error of a source map that is no refusal of the map. -/
def kindOfMap : MapError → String
  | .malformed fault => kindOfShape fault
  | .fractional => "NotImplementedError"
  | _ => "ValueError"

def kindOfFile : FileError → String
  | .blocked fault _ => fault.kind
  | .nullInPath => "ValueError"

/-- The word for the kind of an error. -/
def kind : AnalysisError → String
  | unparsable _ => "SourceSyntaxError"
  | minifier .noProgram => "IndexError"
  | minifier (.invalidStart _) => "ValueError"
  | minifier .unwritablePasses => "ValueError"
  | minifier _ => "MinificationError"
  | map error => if error.refuses then "SourceMapError" else kindOfMap error
  | attribution (.line _) => "IndexError"
  | attribution (.inconsistent anomaly) =>
    if anomaly.hasWritableRanges then "InconsistentRangeError" else "ValueError"
  | attribution (.unwritable _) => "ValueError"
  | percentage .tooLarge => "OverflowError"
  | percentage .tooLong => "ValueError"
  | pattern error => error.kind
  | settings _ => "ValueError"
  | decoding _ => "UnicodeDecodeError"
  | file error => kindOfFile error
  | tableRequired => "ValueError"

/-- What the failure is about. -/
def family : AnalysisError → ErrorFamily
  | unparsable _ => .analysis
  | minifier .noProgram => .unforeseen
  | minifier (.invalidStart _) => .input
  | minifier .unwritablePasses => .input
  | minifier _ => .analysis
  | map error =>
    if error.refuses then .analysis
    else if kindOfMap error = "ValueError" then .input
    else .unforeseen
  | attribution (.line _) => .unforeseen
  | attribution (.inconsistent anomaly) => if anomaly.hasWritableRanges then .analysis else .input
  | attribution (.unwritable _) => .input
  | percentage .tooLarge => .unforeseen
  | percentage .tooLong => .input
  | pattern error =>
    if error.kind = "error" ∨ error.kind = "ValueError" then .input else .unforeseen
  | settings _ => .input
  | decoding _ => .input
  | file (.blocked .missing path) => .missingFile path
  | file (.blocked _ _) => .unforeseen
  | file .nullInPath => .input
  | tableRequired => .input

/-- The tool knows the failure as one of an analysis or of a pattern. -/
def expected (e : AnalysisError) : Bool :=
  match e with
  | pattern error => error.kind = "error"
  | e => e.family = .analysis

end AnalysisError

end BundleSize
