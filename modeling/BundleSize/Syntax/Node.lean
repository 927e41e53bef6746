/-!
# Syntax trees

A syntax tree is concrete: every node covers a stretch of the program's
bytes and holds its parts in order. A node may stand in a named role of its
parent, such as the body of a function. Comments are nodes like any other.

A parser that meets an error still gives a tree. It marks the place by an
error node, or by a missing node where it assumed a token that is not there,
and flags the nodes above it.
-/

namespace BundleSize

/-- The kinds of nodes that are told apart. -/
inductive NodeKind where
  | program
  | comment
  | error
  | expressionStatement
  | statementBlock
  | functionDeclaration
  | generatorFunctionDeclaration
  | variableDeclaration
  | lexicalDeclaration
  | variableDeclarator
  | identifier
  | parenthesizedExpression
  | callExpression
  | functionExpression
  /-- The older name of a function expression. -/
  | functionLiteral
  | other (name : String)
  deriving Repr, DecidableEq, Inhabited

namespace NodeKind

def name : NodeKind → String
  | program => "program"
  | comment => "comment"
  | error => "ERROR"
  | expressionStatement => "expression_statement"
  | statementBlock => "statement_block"
  | functionDeclaration => "function_declaration"
  | generatorFunctionDeclaration => "generator_function_declaration"
  | variableDeclaration => "variable_declaration"
  | lexicalDeclaration => "lexical_declaration"
  | variableDeclarator => "variable_declarator"
  | identifier => "identifier"
  | parenthesizedExpression => "parenthesized_expression"
  | callExpression => "call_expression"
  | functionExpression => "function_expression"
  | functionLiteral => "function"
  | other name => name

def ofName : String → NodeKind
  | "program" => program
  | "comment" => comment
  | "ERROR" => error
  | "expression_statement" => expressionStatement
  | "statement_block" => statementBlock
  | "function_declaration" => functionDeclaration
  | "generator_function_declaration" => generatorFunctionDeclaration
  | "variable_declaration" => variableDeclaration
  | "lexical_declaration" => lexicalDeclaration
  | "variable_declarator" => variableDeclarator
  | "identifier" => identifier
  | "parenthesized_expression" => parenthesizedExpression
  | "call_expression" => callExpression
  | "function_expression" => functionExpression
  | "function" => functionLiteral
  | name => other name

end NodeKind

/-- The roles of nodes in their parents that are looked up. -/
inductive Role where
  | name | body | callee
  | other (name : String)
  deriving Repr, DecidableEq

namespace Role

def ofName : String → Role
  | "name" => name
  | "body" => body
  | "function" => callee
  | s => other s

end Role

/-- A place in a program by bytes: the offset, the number of line feeds before it, and the number
of bytes since the last of them. -/
structure BytePoint where
  offset : Nat := 0
  row : Nat := 0
  column : Nat := 0
  deriving Repr, DecidableEq, Inhabited

/-- A node of a syntax tree. -/
structure Node where
  kind : NodeKind
  /-- Punctuation and keywords are not named. -/
  named : Bool := true
  start : BytePoint
  /-- The byte offset just after the node. -/
  stop : Nat
  /-- The parser assumed this token. -/
  missing : Bool := false
  /-- There is an error in the node. -/
  hasError : Bool := false
  role : Option Role := none
  children : List Node := []
  deriving Repr, Inhabited

namespace Node

def namedChildren (n : Node) : List Node := n.children.filter (·.named)

/-- The first child in a role. -/
def child? (n : Node) (role : Role) : Option Node := n.children.find? (·.role == some role)

mutual

/-- The first error or missing node, going only where an error is flagged. -/
def firstError : Node → Option Node
  | n@⟨kind, _, _, _, missing, _, _, children⟩ =>
    if kind = .error ∨ missing then some n else firstErrorIn children

def firstErrorIn : List Node → Option Node
  | [] => none
  | c :: cs =>
    if c.hasError || c.missing then
      match firstError c with
      | some found => some found
      | none => firstErrorIn cs
    else firstErrorIn cs

end

mutual

/-- What stands inside any number of parentheses: the first named child of each. -/
def inParentheses : Node → Option Node
  | n@⟨kind, _, _, _, _, _, _, children⟩ =>
    if kind = .parenthesizedExpression then firstNamedInParentheses children else some n

def firstNamedInParentheses : List Node → Option Node
  | [] => none
  | c :: cs => if c.named then inParentheses c else firstNamedInParentheses cs

end

end Node

end BundleSize
