import BundleSize.Script.Function

/-!
# Expressions

An operand is a primary expression with the member accesses and calls that
follow it. Operators are read by the tightness of their binding. A slash
where an operand has to stand begins a regular expression, anywhere else it
divides.
-/

namespace BundleSize.Script

open Script.Parser

/-! ## Operators -/

/-- The operators that assign, an equals sign alone not among them. -/
def assignmentOperators : List String :=
  [">>>=", "**=", "&&=", "||=", "??=", "<<=", ">>=", "+=", "-=", "*=", "/=", "%=", "&=", "|=", "^="]

/-- The operators that join operands, each with the tightness of its binding; an operator stands
before those that it begins with. -/
def binaryOperators : List (String × Nat) :=
  [("===", 7), ("!==", 7), (">>>", 9), ("??", 1), ("||", 2), ("&&", 3), ("==", 7), ("!=", 7),
    ("<=", 8), (">=", 8), ("<<", 9), (">>", 9), ("**", 12), ("|", 4), ("^", 5), ("&", 6),
    ("<", 8), (">", 8), ("+", 10), ("-", 10), ("*", 11), ("/", 11), ("%", 11)]

/-- The first operator of a list that the text begins with. -/
def operatorAt? (text : List Char) (operators : List (String × Nat)) : Option (String × Nat) :=
  operators.find? fun o => o.1.toList.isPrefixOf text

/-- The operator that joins the last operand to the next one. -/
def binaryOperator? (allowIn : Bool) : Parser (Option (String × Nat)) := do
  let text ← rest
  let begins (s : String) : Bool := s.toList.isPrefixOf text
  match text.head? with
  | none => return none
  | some c =>
    if c = 'i' then
      let w ← word
      if w = "instanceof" || (w = "in" && allowIn) then return some (w, 8) else return none
    else if isWordStart c then return none
    else if begins "++" || begins "--" || assignmentOperators.any begins then return none
    else return operatorAt? text binaryOperators

/-- The next token can begin an operand. -/
def seesOperand : Parser Bool := do
  match ← rest with
  | [] => return false
  | '.' :: c :: _ => return c.isDigit
  | c :: _ =>
    if isWordStart c then
      let w ← word
      return w ≠ "in" && w ≠ "of" && w ≠ "instanceof"
    else return c.isDigit || "\"'`([\x7b+-!~/\\#@".toList.contains c

/-! ## Templates -/

/-- A template string. -/
def template (rules : Rules) : Parser Node := do
  let start ← here
  if !(← sees "`") then fail
  takeRaw 1
  let parts ← untilDone (fun done => do
    takeRaw (templateRun (← rest))
    match ← rest with
    | '`' :: _ =>
      takeRaw 1
      return .inr done.reverse
    | '\\' :: _ :: _ =>
      takeRaw 2
      return .inl done
    | '$' :: _ =>
      let partStart ← here
      take 2
      let inner ← rules (.expressions true false)
      if !(← sees "\x7d") then fail
      takeRaw 1
      return .inl ((← plain "template_substitution" partStart [inner]) :: done)
    | _ => fail) []
  let result ← plain "template_string" start parts
  passTrivia
  return result

/-! ## Objects, arrays and arguments -/

/-- A spread of the items of a value. -/
def spread? (rules : Rules) : Parser (Option Node) := do
  let start ← here
  if ← accept "..." then
    let inner ← rules (.assignment true true)
    return some (← plain "spread_element" start [inner])
  else return none

/-- An item of an array or an argument. -/
def item (rules : Rules) : Parser Node := do
  match ← spread? rules with
  | some n => return n
  | none => rules (.assignment true true)

/-- Some item is nothing but a target. -/
def anyPattern (items : List Node) : Bool :=
  items.any fun n => isPatternOnly n || n.children.any isPatternOnly && n.kind == .other "pair"

/-- An array, or a target written like one. -/
def array (rules : Rules) : Parser Node := do
  let start ← here
  expect "["
  let items ← commaSeparated "]" (item rules)
  plain (if anyPattern items then "array_pattern" else "array") start items

/-- A member of an object. A name with a default value can only be part of a target. -/
def member (rules : Rules) : Parser Node := do
  match ← spread? rules with
  | some n => return n
  | none =>
    let start ← here
    methodModifiers
    let w ← word
    let name ← propertyName rules
    if ← sees "(" then
      let parts ← signature rules
      plain "method_definition" start (inRole .name name :: parts)
    else if ← accept ":" then
      let v ← rules (.assignment true true)
      plain "pair" start [inRole (.other "key") name, inRole (.other "value") v]
    else if name.kind ≠ .other "property_identifier" || reserved.contains w then fail
    else
      match ← initializer? rules true with
      | some v => plain "object_pattern" start [name, v]
      | none => return { name with kind := .other "shorthand_property_identifier" }

/-- An object, or a target written like one. -/
def object (rules : Rules) : Parser Node := do
  let start ← here
  expect "\x7b"
  let items ← commaSeparated "\x7d" (member rules)
  plain (if anyPattern items then "object_pattern" else "object") start items

/-- Arguments; those of a call to `async` may turn out to be parameters. -/
def arguments (rules : Rules) : Parser Node := do
  let start ← here
  expect "("
  let items ← commaSeparated ")" (item rules)
  plain "arguments" start items

/-! ## Arrow functions -/

/-- The arrow and the body of a function with the given parameters. -/
def arrowRest (rules : Rules) (start : BytePoint) (params : Node) : Parser Node := do
  expect "=>"
  let body ← if ← sees "\x7b" then block rules else value rules
  plain "arrow_function" start [params, inRole .body body]

/-- What has been read between two parentheses. -/
structure Group where
  items : List Node := []
  /-- It can only be a parameter list: it has a rest parameter or ends with a comma. -/
  parametersOnly : Bool := false

/-- A parenthesized expression, or an arrow function that begins with its parameters. -/
def parenthesized (rules : Rules) : Parser Node := do
  let start ← here
  expect "("
  let group ← untilDone (fun (done : Group) => do
    if ← accept ")" then return .inr { done with parametersOnly := true }
    let itemStart ← here
    let n ←
      if ← accept "..." then do
        let inner ← rules .target
        plain "rest_pattern" itemStart [inner]
      else rules (.assignment true true)
    let done : Group :=
      { items := done.items ++ [n]
        parametersOnly := done.parametersOnly || n.kind == .other "rest_pattern" }
    if ← accept ")" then return .inr done
    expect ","
    return .inl done) {}
  if ← sees "=>" then
    if !group.items.all isParameter then fail
    let params ← plain "formal_parameters" start group.items
    arrowRest rules start params
  else
    if group.parametersOnly || group.items.any isPatternOnly then fail
    match group.items with
    | [n] => node .parenthesizedExpression start [n]
    | first :: others =>
      let last := (others.getLast?.map (·.stop)).getD first.stop
      let sequence : Node :=
        { kind := .other "sequence_expression", start := first.start, stop := last,
          children := group.items }
      node .parenthesizedExpression start [sequence]
    | [] => fail

/-! ## Operands -/

/-- A function or an arrow function that begins with `async`, or the name `async`. -/
def asyncOperand (rules : Rules) : Parser Node := do
  let start ← here
  let name ← leaf .identifier 5
  if ← onNewLine then return name
  let w ← word
  if w = "function" then functionRest rules start false
  else if w.isEmpty || reserved.contains w || w = "of" then return name
  else
    let params ← identifier
    arrowRest rules start params

/-- What an import expression begins with. -/
def importOperand : Parser Node := do
  let start ← here
  take 6
  if ← accept "." then
    expectWord "meta"
    plain "meta_property" start
  else if ← sees "(" then plain "import" start
  else fail

/-- An operand that begins with a word. -/
def wordOperand (rules : Rules) (w : String) : Parser Node := do
  let start ← here
  match w with
  | "function" => functionRest rules start false
  | "class" =>
    take 5
    classRest rules "class" start [] false
  | "async" => asyncOperand rules
  | "import" => importOperand
  | "new" => rules .constructor
  | "this" | "super" | "null" | "true" | "false" => leaf (.other w) w.length
  | _ =>
    let name ← identifier
    if ← sees "=>" then arrowRest rules start name else return name

/-- A primary expression. -/
def primary (rules : Rules) : Parser Node := do
  passMarkup (← get).size
  match ← rest with
  | [] => fail
  | c :: later =>
    if c = '(' then parenthesized rules
    else if c = '[' then array rules
    else if c = '\x7b' then object rules
    else if c = '"' || c = '\'' then string
    else if c = '`' then template rules
    else if c.isDigit || (c = '.' && later.head?.any Char.isDigit) then number
    else if c = '/' then
      match regexLength? (c :: later) with
      | some n => leaf (.other "regex") n
      | none => fail
    else if c = '#' then memberName
    else if c = '@' then
      let start ← here
      let marks ← decorators rules
      expectWord "class"
      classRest rules "class" start marks false
    else
      let w ← word
      if w.isEmpty then fail
      wordOperand rules w

/-- A call with the given callee; one of `async` with an arrow after it is an arrow function. -/
def call (rules : Rules) (start : BytePoint) (callee : Node) (named : Bool) : Parser Node := do
  let args ← arguments rules
  if named && (← sees "=>") then
    if !args.children.all fun n => isParameter n || n.kind == .other "spread_element" then fail
    arrowRest rules start { args with kind := .other "formal_parameters" }
  else
    if args.children.any isPatternOnly then fail
    node .callExpression start [inRole .callee callee, inRole (.other "arguments") args]

/-- One member access or call after an operand, if there is one. -/
def extend? (rules : Rules) (calls : Bool) (start : BytePoint) (operand : Node) :
    Parser (Option Node) := do
  match ← rest with
  | '.' :: c :: _ =>
    if c.isDigit || c = '.' then return none
    take 1
    let name ← memberName
    return some (← plain "member_expression" start [operand, inRole (.other "property") name])
  | '.' :: [] => fail
  | '?' :: '.' :: later =>
    if !calls || later.head?.any Char.isDigit then return none
    take 2
    if ← sees "(" then return some (← call rules start operand false)
    else if ← accept "[" then
      let index ← rules (.expressions true false)
      expect "]"
      return some (← plain "subscript_expression" start [operand, index])
    else if ← sees "`" then
      let text ← template rules
      return some (← node .callExpression start [inRole .callee operand, text])
    else
      let name ← memberName
      return some (← plain "member_expression" start [operand, inRole (.other "property") name])
  | '[' :: _ =>
    take 1
    let index ← rules (.expressions true false)
    expect "]"
    return some (← plain "subscript_expression" start [operand, index])
  | '(' :: _ =>
    if !calls then return none
    let isAsync := operand.kind == .identifier && operand.stop - operand.start.offset == 5
    return some (← call rules start operand isAsync)
  | '`' :: _ =>
    let text ← template rules
    return some (← node .callExpression start [inRole .callee operand, text])
  | _ => return none

/-- An operand with all member accesses and, if asked for, calls after it. -/
def extended (rules : Rules) (calls : Bool) (start : BytePoint) (operand : Node) : Parser Node :=
  untilDone (fun n => do
    match ← extend? rules calls start n with
    | some n => return .inl n
    | none => return .inr n) operand

/-- An instance that is made with `new`, with its arguments if it has any. -/
def instance_ (rules : Rules) : Parser Node := do
  let start ← here
  take 3
  if ← accept "." then
    expectWord "target"
    plain "meta_property" start
  else
    let made ←
      if (← word) = "new" then rules .constructor
      else do
        let made ← here
        let operand ← primary rules
        extended rules false made operand
    if ← sees "(" then
      let args ← arguments rules
      if args.children.any isPatternOnly then fail
      plain "new_expression" start [made, args]
    else plain "new_expression" start [made]

/-- An operand with what follows it, a doubled sign on its line included. -/
def postfixed (rules : Rules) : Parser Node := do
  let start ← here
  let operand ← primary rules
  let operand ← extended rules true start operand
  if (← sees "++") || (← sees "--") then
    if ← onNewLine then return operand
    take 2
    plain "update_expression" start [operand]
  else return operand

/-- An operand with the operators before it. -/
def unary (rules : Rules) : Parser Node := do
  passMarkup (← get).size
  let start ← here
  match ← rest with
  | [] => fail
  | c :: _ =>
    if "!~+-".toList.contains c then
      let doubled := (← sees "++") || (← sees "--")
      take (if doubled then 2 else 1)
      let operand ← rules .unary
      plain (if doubled then "update_expression" else "unary_expression") start [operand]
    else if isWordStart c then
      let w ← word
      if w = "typeof" || w = "void" || w = "delete" then
        take w.length
        let operand ← rules .unary
        plain "unary_expression" start [operand]
      else if w = "await" && (← ahead do take 5; seesOperand) then
        take 5
        let operand ← rules .unary
        plain "await_expression" start [operand]
      else postfixed rules
    else postfixed rules

/-! ## Operators between operands -/

/-- Operands joined by operators that bind at least as tightly as `level`. -/
def binary (rules : Rules) (allowIn : Bool) (level : Nat) : Parser Node := do
  let start ← here
  let first ← rules .unary
  untilDone (fun left => do
    match ← binaryOperator? allowIn with
    | none => return .inr left
    | some (operator, tightness) =>
      if tightness < level then return .inr left
      take operator.length
      let next := if operator = "**" then tightness else tightness + 1
      let right ← rules (.binary allowIn next)
      return .inl (← plain "binary_expression" start [left, right])) first

/-- The question mark of a choice between two values. -/
def seesChoice : Parser Bool := do
  match ← rest with
  | '?' :: '?' :: _ => return false
  | '?' :: '.' :: later => return later.head?.any Char.isDigit
  | '?' :: _ => return true
  | _ => return false

/-- What `yield` hands out; it may stand alone. -/
def yielded (rules : Rules) (allowIn : Bool) : Parser Node := do
  let start ← here
  take 5
  if ← mayEnd false then
    if ← onNewLine then return ← plain "yield_expression" start
  if ← accept "*" then
    let operand ← rules (.assignment allowIn false)
    plain "yield_expression" start [operand]
  else if ← seesOperand then
    let operand ← rules (.assignment allowIn false)
    plain "yield_expression" start [operand]
  else plain "yield_expression" start

/-- `yield` is used as a name. -/
def seesYieldName : Parser Bool :=
  ahead do
    take 5
    match ← rest with
    | '=' :: '>' :: _ => return true
    | c :: _ => return "=.?".toList.contains c
    | [] => return false

/-- An expression between commas. -/
def assignment (rules : Rules) (allowIn allowTarget : Bool) : Parser Node := do
  passMarkup (← get).size
  let start ← here
  if (← word) = "yield" && !(← seesYieldName) then yielded rules allowIn
  else
    let left ← rules (.binary allowIn 0)
    if ← seesChoice then
      take 1
      let yes ← rules (.assignment true false)
      expect ":"
      let no ← rules (.assignment allowIn false)
      plain "ternary_expression" start [left, yes, no]
    else
      let text ← rest
      match assignmentOperators.find? fun o => o.toList.isPrefixOf text with
      | some operator =>
        if !isAssignable left || isPatternOnly left then fail
        take operator.length
        let right ← rules (.assignment allowIn false)
        plain "augmented_assignment_expression" start [left, right]
      | none =>
        if (← sees "=") && !(← sees "==") && !(← sees "=>") then
          if !isAssignable left then fail
          take 1
          let right ← rules (.assignment allowIn false)
          plain "assignment_expression" start [left, right]
        else
          if isPatternOnly left && !allowTarget then fail
          return left

/-- Expressions parted by commas, as one. -/
def expressions (rules : Rules) (allowIn allowTarget : Bool) : Parser Node := do
  let start ← here
  let first ← rules (.assignment allowIn allowTarget)
  let items ← untilDone (fun done => do
    if ← accept "," then
      let n ← rules (.assignment allowIn false)
      return .inl (n :: done)
    else return .inr done.reverse) [first]
  match items with
  | [n] => return n
  | _ => plain "sequence_expression" start items

/-! ## Targets -/

/-- A property of an object target. -/
def targetMember (rules : Rules) : Parser Node := do
  let start ← here
  if ← accept "..." then
    let inner ← rules .target
    plain "rest_pattern" start [inner]
  else
    let w ← word
    let name ← propertyName rules
    if ← accept ":" then
      let inner ← targetWithDefault rules
      plain "pair_pattern" start [name, inner]
    else if name.kind ≠ .other "property_identifier" || reserved.contains w then fail
    else
      match ← initializer? rules true with
      | some v => plain "object_assignment_pattern" start [name, v]
      | none => return { name with kind := .other "shorthand_property_identifier_pattern" }

/-- An item of an array target. -/
def targetItem (rules : Rules) : Parser Node := do
  let start ← here
  if ← accept "..." then
    let inner ← rules .target
    plain "rest_pattern" start [inner]
  else targetWithDefault rules

/-- What a declaration or a parameter binds: a name, or a pattern of names. -/
def target (rules : Rules) : Parser Node := do
  let start ← here
  match ← peek? with
  | some '\x7b' =>
    take 1
    let items ← commaSeparated "\x7d" (targetMember rules)
    plain "object_pattern" start items
  | some '[' =>
    take 1
    let items ← commaSeparated "]" (targetItem rules)
    plain "array_pattern" start items
  | _ => identifier

end BundleSize.Script
