import BundleSize.Attribution.Definition
import BundleSize.NameFilter
import BundleSize.Syntax.Program

/-!
# Extracting definitions

A compiled program keeps its declarations inside a function that is called
where it stands. Such a call is a statement of its own; the call and the
function may each be wrapped in parentheses. The definitions are the
functions and variables declared directly in the body of such a function,
in the order of the text. What stands deeper is nobody's definition but
part of one.

A variable is a definition when it binds a single name; its range runs from
the name to the end of its value. A function's range is its declaration.
-/

namespace BundleSize

/-- A function written as an expression. -/
def isFunctionLiteral (k : NodeKind) : Bool := k = .functionExpression || k = .functionLiteral

/-- The body of the function that a statement calls where it stands. -/
def initializerBody? (statement : Node) : Option Node :=
  if statement.kind = .expressionStatement then do
    let expression ← statement.namedChildren.head?
    let call ← expression.inParentheses
    if call.kind = .callExpression then
      let callee ← (← call.child? .callee).inParentheses
      if isFunctionLiteral callee.kind then callee.child? .body else none
    else none
  else none

namespace Program

/-- The statements that stand directly in an initializer's body. -/
def initializerStatements (p : Program) : List Node :=
  p.root.namedChildren.flatMap fun statement =>
    match initializerBody? statement with
    | some body => body.namedChildren
    | none => []

/-- The definition of a node's range under the name that another node spells. -/
def definitionOf (p : Program) (kind : DefinitionKind) (name node : Node) : Definition :=
  { name := p.nodeText name, kind, start := (p.range node).1, stop := (p.range node).2 }

/-- The definition that a function declaration makes. -/
def functionDefinition? (p : Program) (statement : Node) : Option Definition :=
  if statement.kind = .functionDeclaration ∨ statement.kind = .generatorFunctionDeclaration then
    (statement.child? .name).map fun name => p.definitionOf .function name statement
  else none

/-- The definition that a declarator makes; a pattern binds no single name. -/
def declaratorDefinition? (p : Program) (declarator : Node) : Option Definition :=
  if declarator.kind = .variableDeclarator then
    match declarator.child? .name with
    | some name =>
      if name.kind = .identifier then some (p.definitionOf .binding name declarator) else none
    | none => none
  else none

/-- The definitions that one statement makes. -/
def statementDefinitions (p : Program) (statement : Node) : List Definition :=
  if statement.kind = .variableDeclaration ∨ statement.kind = .lexicalDeclaration then
    statement.namedChildren.filterMap p.declaratorDefinition?
  else (p.functionDefinition? statement).toList

/-- All definitions of a program, in the order of the text. -/
def allDefinitions (p : Program) : List Definition :=
  p.initializerStatements.flatMap p.statementDefinitions

/-- The definitions whose names a filter keeps. -/
def definitions (p : Program) (filter : NameFilter) : List Definition :=
  p.allDefinitions.filter fun d => filter.keeps d.name

end Program

/-- What is reported when a program has no definitions to offer. -/
def noDefinitionsMessage : String :=
  "No top-level definitions found inside an enclosing initializer"

end BundleSize
