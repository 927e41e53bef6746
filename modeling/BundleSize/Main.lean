import BundleSize.CommandLine.Command
import BundleSize.Script.Tree

/-!
# The program

The outer layer of the command: it looks up the environment's variables and
the file that the command line names, runs the command on them, and prints
what it has to say, the records first.

No other program is started from here, so that a request to minify is
refused with the reason that a missing program would give.
-/

namespace BundleSize.Console

/-- The variables that the settings know. -/
def variableNames : List String :=
  ["LOG_LEVEL", "TERSER_BIN", "TERSER_PASSES", "PRESERVE_NAMES", "AGGRESSIVENESS",
    "MINIFIED_OUTPUT_PATH", "NAME_MARKER", "NAME_PATTERN", "STRICT_RANGES"]

/-- The variables that are set. -/
def readVariables : IO Variables := do
  let found ← variableNames.mapM fun name => return (← IO.getEnv name).map (name, ·)
  return found.filterMap id

/-- The text of a place. -/
def placeText (place : List String) : String := "/" ++ "/".intercalate place

/-- The tree with what is found at a place: a file, a directory or nothing. Below a file there is
nothing to be found. -/
def visit (t : FileTree) (place : List String) : IO FileTree := do
  if (t.bytes? place.dropLast).isSome then return t
  try
    return t.put place (← IO.FS.readBinFile (placeText place)).toList
  catch
    | .inappropriateType .. => return { t with directories := place :: t.directories }
    | _ => return t

/-- The tree with what is found at all the places that steps lead through. -/
def visitAll (t : FileTree) (place : List String) : List String → IO FileTree
  | [] => return t
  | step :: rest => do
    let place := if step = ".." then place.dropLast else place ++ [step]
    visitAll (← visit t place) place rest

/-- What the system refuses when the path is to be read. -/
def refusals (p : Path) : IO (List ((Access × Path) × FileFault)) := do
  try
    let _ ← IO.FS.Handle.mk p.toText .read
    return []
  catch
    | .permissionDenied _ number text =>
      return [((.read, p), .other "PermissionError" number.toNat text)]
    | .invalidArgument _ number text => return [((.read, p), .other "OSError" number.toNat text)]
    | _ => return []

/-- The tree with the working directory, as the shell tells it, and the file that the arguments
name. -/
def readTree (arguments : List String) : IO FileTree := do
  let home := (Path.ofText ((← IO.getEnv "PWD").getD "/")).steps
  match CommandArguments.ofTexts arguments with
  | .error _ => return { home }
  | .ok a =>
    let p := Path.ofText a.file
    let t : FileTree := { home, refusals := ← refusals p }
    visitAll t (if p.root = .working then home else []) p.steps

/-- What a start of the minifier comes to. -/
def refuse (s : Start) : Launch :=
  .refused (.system (FileError.message (.blocked .missing (s.arguments.headD ""))))

/-- The line of a record. -/
def recordLine (r : Record) : String := r.level.name ++ " - " ++ r.message

/-- The exit status, with a line for an error that the command does not provide for. -/
def status : CommandEnding → UInt32 × Option String
  | .finished n => (n.toUInt32, none)
  | .stopped n => (n.toUInt32, none)
  | .brokenOff e => (1, some (e.kind ++ ": " ++ e.message))

end BundleSize.Console

open BundleSize in
def main (arguments : List String) : IO UInt32 := do
  let environment ← Console.readVariables
  let workspace : Workspace :=
    { files := ← Console.readTree arguments, launch := Console.refuse, scratch := "/tmp" }
  let (result, workspace) := (Command.run arguments environment).run workspace
  for r in workspace.journal do
    IO.eprintln (Console.recordLine r)
  IO.print result.output
  IO.eprint result.diagnostics
  let (code, line) := Console.status result.ending
  if let some line := line then IO.eprintln line
  return code
