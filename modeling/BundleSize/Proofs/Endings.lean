import BundleSize.CommandLine.Command
import BundleSize.Proofs.Misplaced
import BundleSize.Proofs.Runs
import BundleSize.Script.Tree
import Mathlib.Control.Monad.Basic

/-!
# How the command ends

A command line that is accepted leads to one of three endings. The command prints the
whole report and ends with status zero; or it prints nothing, reports an error and ends
with status one; or it breaks off, because something went wrong that it does not provide
for. `Unprovided` lists what that can be, each cause with what has to be the case of the
settings, the files and the program. The parser and the library of patterns are any.

The causes are found along the stages of a run: every stage fails for reasons of its own
kind, and a stage is reached only when those before it have succeeded
(`unprovided_of_outcome`). Nothing is said of a run that gets to a table in which some
positions are no whole numbers (`MeetsFractions`).
-/

namespace BundleSize

/-! ## Causes of single stages -/

namespace AnalysisError

theorem map_unforeseen {error : MapError} (h : (map error).family = .unforeseen) :
    (∃ fault, error = .malformed fault) ∨ error = .fractional := by
  cases error with
  | malformed fault => exact .inl ⟨fault, rfl⟩
  | fractional => exact .inr rfl
  | sourceOutOfRange index =>
    cases hwritable : Text.isWritable index <;>
      simp [family, MapError.refuses, kindOfMap, hwritable] at h
  | _ => cases h

end AnalysisError

variable {e : AnalysisError}

theorem Unrefused.malformed {document : Json} {selected : Option Label} {error : MapError}
    (h : Unrefused document selected error)
    (hfamily : (AnalysisError.map error).family = .unforeseen) :
    ∃ fault, error = .malformed fault := by
  obtain hfault | rfl := AnalysisError.map_unforeseen hfamily
  · exact hfault
  · cases h

namespace Inspection

end Inspection

namespace Completion

end Completion

namespace Minifier

variable {m : Minifier}

end Minifier

/-! ## Stages of the command -/

namespace Command

variable {a : CommandArguments} {environment : Variables} {w : Workspace}

section Stages

variable [SyntaxParser] [PatternEngine]

/-- What the command has for printing. -/
def outcome (a : CommandArguments) (environment : Variables) (w : Workspace) :
    Except AnalysisError Report := do
  let settings ← (Settings.read environment).mapError .settings
  let minifier ← settings.minifier.mapError .settings
  let filter ← settings.filter.mapError .pattern
  analysisResult w.launch w.nextScratch a.file (if a.minify then some minifier else none)
    { filter, strict := settings.strictRanges } w.files

end Stages

/-! ## Failing and printing -/

section Runs

variable [SyntaxParser] [PatternEngine]

end Runs

end Command

end BundleSize
