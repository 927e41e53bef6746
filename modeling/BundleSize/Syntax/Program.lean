import BundleSize.Syntax.ByteIndex
import BundleSize.Syntax.Node

/-!
# Parsed programs

A program is a text with its syntax tree, and gives the ranges of nodes in
characters. A tree with an error is no program: the error names the line
and column of the first place that the parser could not make sense of.

The parser itself is an outside library. It makes a tree of every text, so
that a text that is no program has a tree as well, in which the places that
the parser could not make sense of are marked.
-/

namespace BundleSize

/-- Why a text is not a program. Lines count from one, columns from zero. -/
inductive SyntaxError where
  | unexpected (line : Nat) (column : Int)
  | missing (line : Nat) (column : Int)
  /-- The tree is flagged, but no place in it is marked. -/
  | unlocated
  deriving Repr, DecidableEq

namespace SyntaxError

/-- The line and the column of the error. -/
def place? : SyntaxError → Option (Nat × Int)
  | unexpected line column => some (line, column)
  | missing line column => some (line, column)
  | unlocated => none

def message : SyntaxError → String
  | unexpected line column =>
    "Unexpected token (line " ++ toString line ++ ", column " ++ toString column ++ ")"
  | missing line column =>
    "Missing token (line " ++ toString line ++ ", column " ++ toString column ++ ")"
  | unlocated => "Invalid JavaScript"

end SyntaxError

/-- A text with its syntax tree. -/
structure Program where
  root : Node
  index : ByteIndex

namespace Program

def text (p : Program) : String := p.index.text

/-- The characters that a node covers. -/
def range (p : Program) (n : Node) : Nat × Nat :=
  (p.index.toChar n.start.offset, p.index.toChar n.stop)

/-- The part of the text between two character offsets. -/
def slice (p : Program) (start stop : Nat) : String :=
  String.ofList ((p.text.toList.take stop).drop start)

/-- The text that a node covers. -/
def nodeText (p : Program) (n : Node) : String := p.slice (p.range n).1 (p.range n).2

/-- The characters that the whole tree covers. -/
def extent (p : Program) : Nat × Nat := p.range p.root

/-- The number of characters that the whole tree covers. -/
def size (p : Program) : Int := (p.extent.2 : Int) - p.extent.1

/-- The error that a node marks. -/
def errorAt (index : ByteIndex) (n : Node) : SyntaxError :=
  let lineStart := (n.start.offset : Int) - n.start.column
  let column := index.toChar n.start.offset - index.toCharFrom lineStart
  if n.missing then .missing (n.start.row + 1) column else .unexpected (n.start.row + 1) column

/-- The program of a text and its tree. -/
def ofTree (text : String) (root : Node) : Except SyntaxError Program :=
  let index := ByteIndex.ofText text
  if root.hasError then
    match root.firstError with
    | none => .error .unlocated
    | some n => .error (errorAt index n)
  else .ok { root, index }

end Program

/-- A parser: the tree that it makes of a text. -/
class SyntaxParser where
  tree : String → Node

/-- The program of a script's text. -/
def Program.read [SyntaxParser] (text : String) : Except SyntaxError Program :=
  ofTree text (SyntaxParser.tree text)

end BundleSize
