import BundleSize.Script.Statement
import BundleSize.Syntax.Program

/-!
# The syntax tree of a script

The tree begins at the first token or comment and ends with the text. Its
comments stand where the text has them: each is a part of the smallest node
that it lies inside of, so that a comment before or after all tokens of a
node is beside it.

A text that is no script gives a tree with one error node, at the token
that could not be taken.

The executables are built with this parser. It takes the language of compiled
programs, no dialect of it, and what is said of programs in general does not
depend on it.
-/

namespace BundleSize.Script

open Script.Parser

/-- One construct, given the parsers of all. -/
def construct (rules : Rules) : Goal → Parser Node
  | .statement => statement rules
  | .expressions allowIn allowTarget => expressions rules allowIn allowTarget
  | .assignment allowIn allowTarget => assignment rules allowIn allowTarget
  | .binary allowIn level => binary rules allowIn level
  | .unary => unary rules
  | .constructor => instance_ rules
  | .target => target rules

/-- The parsers of all constructs, nested to the given depth. -/
def rulesTo : (depth : Nat) → Rules
  | 0 => fun _ => fail
  | depth + 1 => fun goal => construct (rulesTo depth) goal

/-- The statements up to the end of the text. -/
def statements (rules : Rules) : Parser (List Node) :=
  untilDone (fun done => do
    passMarkup (← get).size
    if (← rest).isEmpty then return .inr done.reverse
    let n ← rules .statement
    return .inl (n :: done)) []

/-- The line that names the interpreter of a script. -/
def interpreterLine : Parser (List Node) := do
  if ← sees "#!" then
    let n := ((← rest).takeWhile fun c => c ≠ '\n').length
    return [← leaf (.other "hash_bang_line") n]
  else return []

/-- A comment as a node. -/
def Comment.toNode (c : Comment) : Node := { kind := c.kind, start := c.start, stop := c.stop }

mutual

/-- The node with the given comments, in the order of the text, at their places. -/
def withComments : Node → List Comment → Node
  | ⟨kind, named, start, stop, missing, hasError, role, children⟩, comments =>
    ⟨kind, named, start, stop, missing, hasError, role, mergeComments children comments⟩

/-- Nodes with comments before, in, between and after them. -/
def mergeComments : List Node → List Comment → List Node
  | [], comments => comments.map Comment.toNode
  | n :: ns, comments =>
    let (before, later) := comments.span fun c => c.start.offset < n.start.offset
    let (inside, after) := later.span fun c => c.start.offset < n.stop
    before.map Comment.toNode ++ withComments n inside :: mergeComments ns after

end

/-- The tree of a text that cannot be taken at a place. -/
def errorTree (start place : BytePoint) (stop : Nat) : Node :=
  { kind := .program
    start
    stop
    hasError := true
    children := [{ kind := .error, start := place, stop, hasError := true }] }

/-- The tree of a text. -/
def tree (text : String) : Node :=
  let chars := text.toList
  let stop := text.utf8ByteSize
  let start := (Spot.mk chars {}).skipWhile isBlank
  let input : Input :=
    { next := start, last := start.at_.offset, after := chars, comments := []
      size := chars.length + 1 }
  let whole : Parser (List Node) := do
    passTrivia
    let first ← interpreterLine
    return first ++ (← statements (rulesTo (16 * (chars.length + 2))))
  match whole.run input with
  | .ok (nodes, final) =>
    { kind := .program
      start := start.at_
      stop
      children := mergeComments nodes final.comments.reverse }
  | .error place => errorTree start.at_ place stop

end BundleSize.Script

namespace BundleSize

/-- The parser that the executables are built with. -/
instance : SyntaxParser := ⟨Script.tree⟩

end BundleSize
