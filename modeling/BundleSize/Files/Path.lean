import BundleSize.Text.Line

/-!
# Paths

A path is a list of steps, taken from a root or, if it is relative, from
the working directory. Its written form may hold empty steps and steps that
stay in place; neither is kept. A step to the parent is kept, because where
it leads is known to the file tree only.
-/

namespace BundleSize

/-- Where a path begins. -/
inductive PathRoot where
  | working
  | single
  /-- Two slashes in front, no more and no fewer, are kept apart from one. -/
  | double
  deriving Repr, DecidableEq

/-- A path without steps that lead nowhere. -/
structure Path where
  root : PathRoot
  steps : List String
  deriving Repr, DecidableEq

namespace Path

/-- The root that the slashes in front of a path stand for. -/
def rootOf : List Char → PathRoot
  | '/' :: '/' :: '/' :: _ => .single
  | '/' :: '/' :: _ => .double
  | '/' :: _ => .single
  | _ => .working

/-- The step leads somewhere. -/
def moves (step : String) : Bool := step ≠ "" && step ≠ "."

/-- The path that a text writes. -/
def ofText (text : String) : Path :=
  { root := rootOf text.toList
    steps := ((Text.splitAt '/' text.toList).map String.ofList).filter moves }

def rootText : PathRoot → String
  | .working => ""
  | .single => "/"
  | .double => "//"

/-- The shortest text that writes the path. -/
def toText (p : Path) : String :=
  match p.root, p.steps with
  | .working, [] => "."
  | root, steps => rootText root ++ "/".intercalate steps

end Path

end BundleSize
