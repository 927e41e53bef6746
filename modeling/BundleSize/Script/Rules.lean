import BundleSize.Script.Parser

/-!
# The rules of the grammar

The grammar's constructs contain one another without end. Each construct is
written as a parser that is given the parsers of all others, so that it
calls itself only through them; the knot is tied once, by a bound on the
depth of nesting.

An expression that turns out to be the target of an assignment, the
parameters of an arrow function or the target of a loop is read as an
expression first. One that can be nothing but a target is marked as a
pattern, and is refused where a value has to stand.
-/

namespace BundleSize.Script

/-- The constructs that may contain one another. -/
inductive Goal where
  | statement
  /-- Expressions parted by commas. -/
  | expressions (allowIn : Bool) (allowTarget : Bool)
  /-- One expression between commas. -/
  | assignment (allowIn : Bool) (allowTarget : Bool)
  /-- Operands joined by operators that bind at least as tightly as `level`. -/
  | binary (allowIn : Bool) (level : Nat)
  /-- An operand with the operators before it. -/
  | unary
  /-- What `new` makes an instance of. -/
  | constructor
  /-- What a declaration or a parameter binds. -/
  | target
  deriving Repr, DecidableEq

/-- The parsers of all constructs. -/
abbrev Rules := Goal → Parser Node

open Script.Parser

/-- An expression that is nothing but a target. -/
def isPatternOnly (n : Node) : Bool :=
  n.kind == .other "object_pattern" || n.kind == .other "array_pattern"

/-- The node may stand on the left of an equals sign. -/
def isAssignable (n : Node) : Bool :=
  isPatternOnly n || n.kind == .identifier || n.kind == .parenthesizedExpression ||
    ["member_expression", "subscript_expression", "object", "array"].any fun k =>
      n.kind == .other k

/-- The node may be a parameter of an arrow function. -/
def isParameter (n : Node) : Bool :=
  isPatternOnly n || n.kind == .identifier ||
    ["object", "array", "assignment_expression", "rest_pattern"].any fun k =>
      n.kind == .other k

/-- A word that is not reserved. -/
def nameWord : Parser String := do
  let w ← word
  if w.isEmpty || reserved.contains w then fail
  return w

/-- A name that is used or bound. -/
def identifier : Parser Node := do
  let w ← nameWord
  leaf .identifier w.length

/-- A name after a dot, or of a property: any word, private or not. -/
def memberName : Parser Node := do
  let private_ ← sees "#"
  let text ← rest
  let n := wordLength (← get).size false (if private_ then text.drop 1 else text)
  if n = 0 then fail
  if private_ then leaf (.other "private_property_identifier") (n + 1)
  else leaf (.other "property_identifier") n

/-- A string literal. -/
def stringLiteral (length? : List Char → Option Nat) : Parser Node := do
  match length? (← rest) with
  | some n => leaf (.other "string") n
  | none => fail

/-- Items parted by commas up to a closing symbol, which is taken. Items may be left out. -/
def commaSeparated (close : String) (item : Parser Node) : Parser (List Node) :=
  untilDone (fun done => do
    if ← accept close then return .inr done.reverse
    if ← accept "," then return .inl done
    let n ← item
    if ← accept close then return .inr (n :: done).reverse
    expect ","
    return .inl (n :: done)) []

end BundleSize.Script
