import BundleSize.Script.Literal
import BundleSize.Script.Rules

/-!
# Functions and classes

Parameters, bodies and the members of classes and objects.
-/

namespace BundleSize.Script

open Script.Parser

/-- A string literal with either quote. -/
def string : Parser Node := do
  let quote := (← peek?).getD ' '
  if quote = '"' || quote = '\'' then
    let size := (← get).size
    stringLiteral fun text => (stringRest? quote size (text.drop 1)).map (1 + ·)
  else fail

/-- A number literal. -/
def number : Parser Node := do
  let n := numberLength (← rest)
  if n = 0 then fail
  leaf (.other "number") n

/-- A value where nothing but a value may stand. -/
def value (rules : Rules) : Parser Node := rules (.assignment true false)

/-- A block of statements. -/
def block (rules : Rules) : Parser Node := do
  let start ← here
  expect "\x7b"
  let statements ← untilDone (fun done => do
    passMarkup (← get).size
    if ← accept "\x7d" then return .inr done.reverse
    let n ← rules .statement
    return .inl (n :: done)) []
  node .statementBlock start statements

/-- A target with an optional default value. -/
def targetWithDefault (rules : Rules) : Parser Node := do
  let start ← here
  let target ← rules .target
  if (← sees "=") && !(← sees "==") && !(← sees "=>") then
    take 1
    let default ← value rules
    plain "assignment_pattern" start [target, default]
  else return target

/-- A parameter list. A trailing comma may follow its last parameter. -/
def parameters (rules : Rules) : Parser Node := do
  let start ← here
  expect "("
  let items ← untilDone (fun done => do
    if ← accept ")" then return .inr done.reverse
    let itemStart ← here
    let n ←
      if ← accept "..." then do
        let inner ← rules .target
        plain "rest_pattern" itemStart [inner]
      else targetWithDefault rules
    if ← accept ")" then return .inr (n :: done).reverse
    expect ","
    return .inl (n :: done)) []
  plain "formal_parameters" start items

/-- Parameters and body. -/
def signature (rules : Rules) : Parser (List Node) := do
  let ps ← parameters rules
  let body ← block rules
  return [inRole (.other "parameters") ps, inRole .body body]

/-- The name of a property. -/
def propertyName (rules : Rules) : Parser Node := do
  match ← peek? with
  | some '[' =>
    let start ← here
    take 1
    let inner ← value rules
    expect "]"
    plain "computed_property_name" start [inner]
  | some '"' => string
  | some '\'' => string
  | some c => if c.isDigit || c = '.' then number else memberName
  | none => fail

/-- The next token can begin the name of a property. -/
def seesPropertyName : Parser Bool := do
  match ← peek? with
  | some c => return isWordStart c || c.isDigit || "[\"'#\\".toList.contains c
  | none => return false

/-- Takes the word if it modifies the property whose name follows. -/
def acceptModifier (w : String) (allowStar : Bool) : Parser Bool := do
  if (← word) ≠ w then return false
  let modifies ← ahead do
    take w.length
    return (← seesPropertyName) || (allowStar && (← sees "*"))
  if modifies then take w.length
  return modifies

/-- The modifiers of a method. -/
def methodModifiers : Parser Unit := do
  let _ ← acceptModifier "async" true
  if ← accept "*" then return
  if ← acceptModifier "get" false then return
  let _ ← acceptModifier "set" false

/-- A decorator of a class or of a member. -/
def decorators (rules : Rules) : Parser (List Node) :=
  untilDone (fun done => do
    let start ← here
    if ← accept "@" then
      let inner ← rules .unary
      return .inl ((← plain "decorator" start [inner]) :: done)
    else return .inr done.reverse) []

/-- A value that is given where something is declared. -/
def initializer? (rules : Rules) (allowIn : Bool) : Parser (Option Node) := do
  if (← sees "=") && !(← sees "==") && !(← sees "=>") then
    take 1
    return some (← rules (.assignment allowIn false))
  else return none

/-- A member of a class. -/
def classMember (rules : Rules) : Parser Node := do
  let marks ← decorators rules
  let start := (marks.head?.map (·.start)).getD (← here)
  let staticBlock ← if (← word) = "static" then ahead do
      take 6
      sees "\x7b"
    else pure false
  if staticBlock then
    take 6
    let body ← block rules
    plain "class_static_block" start [inRole .body body]
  else do
    let _ ← acceptModifier "static" true
    methodModifiers
    let name ← propertyName rules
    if ← sees "(" then
      let parts ← signature rules
      plain "method_definition" start (marks ++ inRole .name name :: parts)
    else do
      let initial ← initializer? rules true
      let field ← plain "field_definition" start
        (marks ++ inRole (.other "property") name :: initial.toList)
      semicolon initial.isSome
      return field

/-- The members of a class. -/
def classBody (rules : Rules) : Parser Node := do
  let start ← here
  expect "\x7b"
  let members ← untilDone (fun done => do
    if ← accept "\x7d" then return .inr done.reverse
    if ← accept ";" then return .inl done
    let n ← classMember rules
    return .inl (n :: done)) []
  plain "class_body" start members

/-- A class after its keyword, which stood at `start`. -/
def classRest (rules : Rules) (kind : String) (start : BytePoint) (marks : List Node)
    (named : Bool) : Parser Node := do
  let w ← word
  let name ←
    if w.isEmpty || reserved.contains w then
      if named then fail else pure []
    else pure [inRole .name (← identifier)]
  let heritageStart ← here
  let heritage ←
    if ← acceptWord "extends" then do
      let base ← rules .unary
      pure [← plain "class_heritage" heritageStart [base]]
    else pure []
  let body ← classBody rules
  plain kind start (marks ++ name ++ heritage ++ [inRole .body body])

/-- A function from its keyword on; `start` is where it, or the word `async` before it, stands.
A declaration needs a name. -/
def functionRest (rules : Rules) (start : BytePoint) (declared : Bool) : Parser Node := do
  expectWord "function"
  let generates ← accept "*"
  let w ← word
  let name ←
    if w.isEmpty || reserved.contains w then
      if declared then fail else pure []
    else pure [inRole .name (← identifier)]
  let parts ← signature rules
  let kind :=
    if declared then
      if generates then NodeKind.generatorFunctionDeclaration else .functionDeclaration
    else if generates then .other "generator_function"
    else .functionExpression
  node kind start (name ++ parts)

end BundleSize.Script
