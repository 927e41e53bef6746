import BundleSize.Syntax.Node

/-!
# Edits off the way to a declaration

From a program one way leads down to each name that it declares: to a
statement, through parentheses to the call in it, through parentheses to the
function that is called, to its body, to a declaration there, and to the name.
What a node is on such a way is its place, and the place of a node gives those
of its parts (`Place.part`). Most parts are interior: no way leads through
them, whatever they hold.

Two kinds of edits stay off these ways (`Node.Edited`). The call and the
function that is called can be put in parentheses. And the subtree under a node
that has interior parts only can be replaced by any other: under the body, the
parameters or the value of a declaration, under a statement that declares
nothing.
-/

namespace BundleSize

/-- What a node is on the way from a program to a name that it declares. -/
inductive Place where
  | program
  | statement
  /-- What a statement consists of, or what stands in its parentheses. -/
  | expression
  /-- What is called, or what stands in its parentheses. -/
  | callee
  | body
  /-- A statement of a body. -/
  | member
  | declarator
  | name
  | interior
  deriving Repr, DecidableEq

/-- The place of a part, in the given role, of a node of the given kind. -/
def Place.part (place : Place) (kind : NodeKind) (role : Option Role) : Place :=
  match place with
  | program => statement
  | statement => if kind = .expressionStatement then expression else interior
  | expression =>
    if kind = .parenthesizedExpression then expression
    else if kind = .callExpression ∧ role = some .callee then callee
    else interior
  | callee =>
    if kind = .parenthesizedExpression then callee
    else if (kind = .functionExpression ∨ kind = .functionLiteral) ∧ role = some .body then body
    else interior
  | body => member
  | member =>
    if kind = .variableDeclaration ∨ kind = .lexicalDeclaration then declarator
    else if (kind = .functionDeclaration ∨ kind = .generatorFunctionDeclaration)
      ∧ role = some .name then name
    else interior
  | declarator => if kind = .variableDeclarator ∧ role = some .name then name else interior
  | name => interior
  | interior => interior

namespace Node

/-- The first node is the second one in a pair of parentheses, in which nothing else is named. It
stands where the second one stood. -/
structure Encloses (outer n : Node) : Prop where
  kind : outer.kind = .parenthesizedExpression
  named : outer.named = true
  role : outer.role = n.role
  content : ∃ role, outer.namedChildren = [{ n with role }]

/-- The subtree under the first node is replaced by another one. The node itself keeps its kind, its
range and its role. -/
structure Refilled (n n' : Node) : Prop where
  kind : n'.kind = n.kind
  named : n'.named = n.named
  start : n'.start = n.start
  stop : n'.stop = n.stop
  role : n'.role = n.role

/-- The second node is the first one with an edit at it or somewhere below it. -/
inductive Edited : Place → Node → Node → Prop
  | enclose {place : Place} {n outer : Node} : place = .expression ∨ place = .callee →
      Encloses outer n → Edited place n outer
  | refill {place : Place} {n n' : Node} : (∀ role, place.part n.kind role = .interior) →
      Refilled n n' → Edited place n n'
  | inside {place : Place} (n : Node) (front back : List Node) {c c' : Node} :
      Edited (place.part n.kind c.role) c c' →
      Edited place { n with children := front ++ c :: back } { n with children := front ++ c' :: back }

end Node

end BundleSize
