import BundleSize.Files.Path
import BundleSize.Shell.Words
import BundleSize.Text.Integer
import BundleSize.Text.Quoted

/-!
# Options and failures of the minifier

The minifier is an outside program. Its command may bring arguments of its
own; those that stand for the options follow, and they always ask for a
source map. The compressor makes a number of passes, at least one, and the
more assumptions about the whole program it may make, the more it removes.

The program may not start, may give up, or may end well and leave less than
it was asked for.
-/

namespace BundleSize

/-- The assumptions about a program that the compressor may make. -/
inductive Aggressiveness where
  | safe
  /-- Assumptions that hold of compiled programs. -/
  | eager
  /-- Also that the helpers of curried calls may go when their results are not used. -/
  | pureWrappers
  deriving Repr, DecidableEq

namespace Aggressiveness

def name : Aggressiveness → String
  | safe => "safe"
  | eager => "unsafe"
  | pureWrappers => "pure_wrappers"

def ofName? : String → Option Aggressiveness
  | "safe" => some safe
  | "unsafe" => some eager
  | "pure_wrappers" => some pureWrappers
  | _ => none

theorem ofName?_name (a : Aggressiveness) : ofName? a.name = some a := by
  cases a <;> rfl

end Aggressiveness

/-- Options of the minifier, with at least one pass. -/
structure MinifierOptions where
  passes : Nat := 2
  preserveNames : Bool := false
  aggressiveness : Aggressiveness := .eager
  /-- Where the minified code is kept. -/
  outputPath : Option Path := none
  passes_pos : 0 < passes := by decide

/-- Why there is no minifier for a description. -/
inductive MinifierConfigError where
  | passes (found : Int)
  | aggressiveness (found : String)
  | command (error : Shell.WordsError)
  deriving Repr, DecidableEq

def MinifierConfigError.message : MinifierConfigError → String
  | passes found =>
    if Text.isWritable found then "passes must be at least 1, got " ++ toString found
    else Text.tooLongMessage
  | aggressiveness found => Text.quoted found ++ " is not a valid Aggressiveness"
  | command error => error.message

namespace MinifierOptions

/-- The options with a number of passes and an aggressiveness that may be out of range. -/
def ofTexts (passes : Int) (preserveNames : Bool) (aggressiveness : String)
    (outputPath : Option Path) : Except MinifierConfigError MinifierOptions :=
  if h : 1 ≤ passes then
    match Aggressiveness.ofName? aggressiveness with
    | some aggressiveness =>
      .ok
        { passes := passes.toNat, preserveNames, aggressiveness, outputPath
          passes_pos := by omega }
    | none => .error (.aggressiveness aggressiveness)
  else .error (.passes passes)

/-- The helpers of curried functions and calls, for two to nine arguments. -/
def pureWrappers : List String :=
  ["F", "A"].flatMap fun letter => (List.range' 2 8).map fun n => letter ++ toString n

/-- The compressor's options, in the order in which they are written. -/
def compressorOptions (o : MinifierOptions) : List String :=
  let wrappers :=
    if o.aggressiveness = .pureWrappers then
      ["pure_funcs=[" ++ ",".intercalate pureWrappers ++ "]"]
    else []
  let assumptions :=
    if o.aggressiveness = .safe then []
    else ["pure_getters=true", "keep_fargs=false", "unsafe_comps=true", "unsafe=true"]
  ["passes=" ++ toString o.passes] ++ wrappers ++ assumptions

/-- The compressor's options as one argument. -/
def compress (o : MinifierOptions) : String := ",".intercalate o.compressorOptions

/-- The arguments that stand for the options. -/
def arguments (o : MinifierOptions) : List String :=
  ["--ecma", "5", "--module", "--compress", o.compress]
    ++ (if o.preserveNames then [] else ["--mangle"]) ++ ["--source-map"]

end MinifierOptions

/-- An outside minifier: its command, in words, and its options. -/
structure Minifier where
  command : List String := ["terser"]
  options : MinifierOptions := {}

/-- The minifier of a command in one text. The options are looked at before the command. -/
def Minifier.ofTexts (command : String) (options : Except MinifierConfigError MinifierOptions) :
    Except MinifierConfigError Minifier := do
  let options ← options
  let command ← (Shell.words command).mapError .command
  return { command, options }

/-- Why the minifier gave nothing. -/
inductive MinifierFailure where
  | notStarted (program reason : String)
  /-- The command has no word, so that there is not even a program to name. -/
  | noProgram
  /-- The arguments of the start are none that a program can have. -/
  | invalidStart (reason : String)
  /-- The number of passes is too long to be written. -/
  | unwritablePasses
  | exited (status : Int) (diagnostics : String)
  | noCode
  | noMap
  deriving Repr, DecidableEq

def MinifierFailure.message : MinifierFailure → String
  | notStarted program reason => "Could not start terser (" ++ program ++ "): " ++ reason
  | noProgram => "list index out of range"
  | invalidStart reason => reason
  | unwritablePasses => Text.tooLongMessage
  | exited status diagnostics =>
    "terser exited with status " ++ toString status ++ ": " ++ diagnostics
  | noCode => "terser produced no output file"
  | noMap => "terser produced no source map"

end BundleSize
