import BundleSize.AnalysisError
import BundleSize.Files.Tree
import BundleSize.Journal

/-!
# Workspaces

A run meets three things outside of it: the files below the working
directory, the minifier's program, and whoever reads its records. A
workspace holds the state of all three. The program is a function from what
it is started with to what becomes of it, so that a run is determined by
the workspace it begins in.

The program works in a scratch directory, which is no part of the file tree:
its input and what it leaves there are seen in the attempts. Every start has a
directory of its own, whose name differs from start to start.
-/

namespace BundleSize

/-- What the minifier's program is started with: its arguments, with its own name as the first,
and the text of its input file. -/
structure Start where
  arguments : List String
  input : String
  deriving Repr, DecidableEq

/-- What the program leaves when it has ended. -/
structure Completion where
  status : Int
  diagnostics : Text.Bytes
  code : Option Text.Bytes
  map : Option Text.Bytes
  deriving Repr, DecidableEq

/-- Why the program is not started. -/
inductive Refusal where
  /-- The system has an error for the start. -/
  | system (reason : String)
  /-- No program can have such arguments. -/
  | invalid (reason : String)
  deriving Repr, DecidableEq

instance : Coe String Refusal := ⟨.system⟩

/-- What becomes of starting the program. -/
inductive Launch where
  | refused (reason : Refusal)
  | completed (completion : Completion)
  deriving Repr, DecidableEq

/-- A start and what became of it. -/
structure Attempt where
  start : Start
  launch : Launch
  deriving Repr, DecidableEq

/-- The surroundings of a run. -/
structure Workspace where
  files : FileTree
  launch : Start → Launch
  /-- How the names of scratch directories begin. -/
  scratch : String
  /-- How the name for a start ends, by the number of starts before it. -/
  suffix : Nat → String := fun _ => ""
  attempts : List Attempt := []
  journal : Journal := []

/-- A computation in a workspace that may fail; what it did before it failed stays done. -/
abbrev Run := ExceptT AnalysisError (StateM Workspace)

namespace Workspace

/-- The scratch directory of the next start. -/
def nextScratch (w : Workspace) : String := w.scratch ++ w.suffix w.attempts.length

/-- The workspace with records at the end of its journal. -/
def report (w : Workspace) (records : List Record) : Workspace :=
  { w with journal := w.journal ++ records }

end Workspace

namespace Run

/-- Appends one record. -/
def note (level : Level) (message : String) : Run Unit :=
  modify fun w => w.report [⟨level, message⟩]

/-- The value of a pure computation. -/
def ofExcept (result : Except AnalysisError α) : Run α := ExceptT.mk (pure result)

/-- A computation that only reports. -/
def ofLogged (action : Logged AnalysisError α) : Run α := do
  let (result, records) := action.run
  modify fun w => w.report records
  ofExcept result

/-- The text of a file. -/
def readText (p : Path) : Run String := do
  let bytes ← ofExcept (((← get).files.read p).mapError .file)
  ofExcept ((TextFile.decode bytes).mapError .decoding)

/-- Writes a text to a file. -/
def writeText (p : Path) (text : String) : Run Unit := do
  let files ← ofExcept (((← get).files.write p (TextFile.encode text)).mapError .file)
  modify fun w => { w with files }

/-- Starts the minifier's program. -/
def start (s : Start) : Run Launch := do
  let launch := (← get).launch s
  modify fun w => { w with attempts := w.attempts ++ [⟨s, launch⟩] }
  return launch

end Run

end BundleSize
