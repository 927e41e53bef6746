import BundleSize.Journal
import BundleSize.Minification.Options
import BundleSize.NameFilter
import BundleSize.Text.Integer

/-!
# Settings

The environment's variables choose the minifier, its options, the names
that are reported, what happens to inconsistent ranges and how much is
logged. A variable that is not set has a default. For a path and for the
two conditions on names, an empty variable counts as not set.

Only the number of passes has to make sense for the settings to be read;
the rest is checked when it is used.
-/

namespace BundleSize

/-- The variables of an environment by their names. -/
abbrev Variables := List (String × String)

/-- What the variables say. -/
structure Settings where
  logLevel : String
  minifierCommand : String
  passes : Int
  preserveNames : Bool
  aggressiveness : String
  outputPath : Option Path
  nameMarker : Option String
  namePattern : Option String
  strictRanges : Bool
  deriving Repr, DecidableEq

/-- Why settings cannot be used. -/
inductive SettingsError where
  | passes (error : Text.IntegerError)
  | minifier (error : MinifierConfigError)
  | level (found : String)
  deriving Repr, DecidableEq

def SettingsError.message : SettingsError → String
  | passes error => error.message
  | minifier error => error.message
  | level found => "Unknown level: " ++ Text.quoted found

/-- The variable's text, unless it is empty or not set. -/
def nonEmpty? (environment : Variables) (name : String) : Option String :=
  match environment.lookup name with
  | some text => if text.isEmpty then none else some text
  | none => none

/-- The variable says "true", in letters of either case. -/
def isOn (environment : Variables) (name : String) : Bool :=
  match environment.lookup name with
  | some text => text.toList.map Char.toLower = "true".toList
  | none => false

/-- The name of the threshold for records. -/
def logLevelOf (environment : Variables) : String := (environment.lookup "LOG_LEVEL").getD "INFO"

/-- The threshold of a name. -/
def thresholdOf (name : String) : Except SettingsError Threshold :=
  match Threshold.ofName? name with
  | some threshold => .ok threshold
  | none => .error (.level name)

namespace Settings

/-- The settings that the variables make. -/
def read (environment : Variables) : Except SettingsError Settings := do
  let passes ←
    (Text.readInteger ((environment.lookup "TERSER_PASSES").getD "2")).mapError .passes
  return {
    logLevel := logLevelOf environment
    minifierCommand := (environment.lookup "TERSER_BIN").getD "terser"
    passes
    preserveNames := isOn environment "PRESERVE_NAMES"
    aggressiveness := (environment.lookup "AGGRESSIVENESS").getD "unsafe"
    outputPath := (nonEmpty? environment "MINIFIED_OUTPUT_PATH").map Path.ofText
    nameMarker := nonEmpty? environment "NAME_MARKER"
    namePattern := nonEmpty? environment "NAME_PATTERN"
    strictRanges := isOn environment "STRICT_RANGES" }

/-- The minifier that the settings choose. -/
def minifier (s : Settings) : Except SettingsError Minifier :=
  (Minifier.ofTexts s.minifierCommand
    (MinifierOptions.ofTexts s.passes s.preserveNames s.aggressiveness s.outputPath)).mapError
    .minifier

/-- The filter that the settings choose. -/
def filter [PatternEngine] (s : Settings) : Except Pattern.ReadError NameFilter :=
  NameFilter.ofTexts s.nameMarker s.namePattern

end Settings

end BundleSize
