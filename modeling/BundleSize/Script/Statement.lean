import BundleSize.Script.Expression

/-!
# Statements

Script and module syntax are read alike, and a statement is accepted
wherever a statement can stand: whether a `return` stands in a function or
a name is declared twice is not a matter of the grammar.
-/

namespace BundleSize.Script

open Script.Parser

/-! ## Declarations -/

/-- A declared name or pattern with its value. -/
def declarator (rules : Rules) (allowIn : Bool) : Parser Node := do
  let start ← here
  let name ← rules .target
  let initial ← initializer? rules allowIn
  node .variableDeclarator start
    (inRole .name name :: (initial.map (inRole (.other "value"))).toList)

/-- Declarators parted by commas. -/
def declarators (rules : Rules) (allowIn : Bool) : Parser (List Node) := do
  let first ← declarator rules allowIn
  untilDone (fun done => do
    if ← accept "," then return .inl ((← declarator rules allowIn) :: done)
    else return .inr done.reverse) [first]

/-- The declarator has a value. -/
def hasValue (n : Node) : Bool := 2 ≤ n.children.length

/-- A declaration after its keyword, with its end. -/
def declarationRest (rules : Rules) (kind : NodeKind) (start : BytePoint) : Parser Node := do
  let items ← declarators rules true
  semicolon (items.getLast?.any hasValue)
  node kind start items

/-- The kind of the declaration that a word begins. -/
def declarationKind? : String → Option NodeKind
  | "var" => some .variableDeclaration
  | "let" => some .lexicalDeclaration
  | "const" => some .lexicalDeclaration
  | "using" => some (.other "using_declaration")
  | _ => none

/-- The word begins a declaration: it is `var` or `const`, or it may be a name and what follows
can be bound. -/
def beginsDeclaration (w : String) : Parser Bool := do
  if w = "var" || w = "const" then return true
  else if w = "let" then
    ahead do
      take 3
      if (← onNewLine) && (← mayEnd true) then return false
      let next ← word
      return (!next.isEmpty && !reserved.contains next) || (← sees "[") || (← sees "\x7b")
  else if w = "using" then
    ahead do
      take 5
      if ← onNewLine then return false
      let next ← word
      return !next.isEmpty && !reserved.contains next && next ≠ "of"
  else return false

/-- The text after `function`, and a star if there is one, goes on with a name. -/
def declaresFunction : Parser Bool :=
  ahead do
    expectWord "function"
    let _ ← accept "*"
    let w ← word
    return !w.isEmpty && !reserved.contains w

/-- The text after `class` goes on with a name. -/
def declaresClass : Parser Bool :=
  ahead do
    expectWord "class"
    let w ← word
    return !w.isEmpty && !reserved.contains w

/-! ## Loops -/

/-- A condition in parentheses. -/
def condition (rules : Rules) : Parser Node := do
  let start ← here
  expect "("
  let inner ← rules (.expressions true false)
  expect ")"
  node .parenthesizedExpression start [inner]

/-- The word that parts a loop's target from what it runs over. -/
def acceptOver : Parser Bool := do
  if ← acceptWord "of" then return true
  acceptWord "in"

/-- The rest of a loop over something, after the word that says over what. -/
def overRest (rules : Rules) (start : BytePoint) (target : Node) : Parser Node := do
  let domain ← rules (.expressions true false)
  expect ")"
  let body ← rules .statement
  plain "for_in_statement" start
    [inRole (.other "left") target, inRole (.other "right") domain, inRole .body body]

/-- The rest of a counting loop, after its initializer and the semicolon there. -/
def countRest (rules : Rules) (start : BytePoint) (initial : List Node) : Parser Node := do
  let test ←
    if ← accept ";" then pure []
    else do
      let n ← rules (.expressions true false)
      expect ";"
      pure [n]
  let step ← if ← sees ")" then pure [] else pure [← rules (.expressions true false)]
  expect ")"
  let body ← rules .statement
  plain "for_statement" start (initial ++ test ++ step ++ [inRole .body body])

/-- A loop whose head begins with a declaration. -/
def forDeclaration (rules : Rules) (start : BytePoint) (w : String) (kind : NodeKind) :
    Parser Node := do
  let declared ← here
  take w.length
  let first ← declarator rules false
  if ← acceptOver then overRest rules start first
  else
    let items ← untilDone (fun done => do
      if ← accept "," then return .inl ((← declarator rules false) :: done)
      else return .inr done.reverse) [first]
    expect ";"
    let declaration ← node kind declared items
    countRest rules start [declaration]

/-- A loop from its keyword on. -/
def forStatement (rules : Rules) : Parser Node := do
  let start ← here
  take 3
  let _ ← acceptWord "await"
  expect "("
  let w ← word
  if ← accept ";" then countRest rules start []
  else
    let declares ← beginsDeclaration w
    match declarationKind? w with
    | some kind =>
      if declares then forDeclaration rules start w kind else plainHead start
    | none => plainHead start
where
  plainHead (start : BytePoint) : Parser Node := do
    let first ← rules (.expressions false true)
    if isAssignable first then
      if ← acceptOver then return ← overRest rules start first
    if isPatternOnly first then fail
    expect ";"
    countRest rules start [first]

/-! ## Branches -/

/-- A choice between statements. -/
def ifStatement (rules : Rules) : Parser Node := do
  let start ← here
  take 2
  let test ← condition rules
  let yes ← rules .statement
  if ← acceptWord "else" then
    let no ← rules .statement
    plain "if_statement" start [test, yes, no]
  else plain "if_statement" start [test, yes]

/-- The statements of one case of a switch. -/
def caseBody (rules : Rules) : Parser (List Node) :=
  untilDone (fun done => do
    passMarkup (← get).size
    let w ← word
    if w = "case" || w = "default" || (← sees "\x7d") then return .inr done.reverse
    let n ← rules .statement
    return .inl (n :: done)) []

/-- The cases of a switch. -/
def switchBody (rules : Rules) : Parser Node := do
  let start ← here
  expect "\x7b"
  let cases ← untilDone (fun done => do
    let caseStart ← here
    if ← accept "\x7d" then return .inr done.reverse
    else if ← acceptWord "case" then
      let v ← rules (.expressions true false)
      expect ":"
      let body ← caseBody rules
      return .inl ((← plain "switch_case" caseStart (v :: body)) :: done)
    else
      expectWord "default"
      expect ":"
      let body ← caseBody rules
      return .inl ((← plain "switch_default" caseStart body) :: done)) []
  plain "switch_body" start cases

def switchStatement (rules : Rules) : Parser Node := do
  let start ← here
  take 6
  let v ← condition rules
  let body ← switchBody rules
  plain "switch_statement" start [v, inRole .body body]

/-- A guarded block with its handler and its final block, each of which may be absent. -/
def tryStatement (rules : Rules) : Parser Node := do
  let start ← here
  take 3
  let body ← block rules
  let handlerStart ← here
  let handler ←
    if ← acceptWord "catch" then do
      let bound ←
        if ← accept "(" then do
          let t ← rules .target
          expect ")"
          pure [t]
        else pure []
      let handled ← block rules
      pure [← plain "catch_clause" handlerStart (bound ++ [inRole .body handled])]
    else pure []
  let finalStart ← here
  let final ←
    if ← acceptWord "finally" then do
      let last ← block rules
      pure [← plain "finally_clause" finalStart [inRole .body last]]
    else pure []
  plain "try_statement" start (inRole .body body :: handler ++ final)

def whileStatement (rules : Rules) : Parser Node := do
  let start ← here
  take 5
  let test ← condition rules
  let body ← rules .statement
  plain "while_statement" start [test, inRole .body body]

def doStatement (rules : Rules) : Parser Node := do
  let start ← here
  take 2
  let body ← rules .statement
  expectWord "while"
  let test ← condition rules
  let _ ← accept ";"
  plain "do_statement" start [inRole .body body, test]

def withStatement (rules : Rules) : Parser Node := do
  let start ← here
  take 4
  let subject ← condition rules
  let body ← rules .statement
  plain "with_statement" start [subject, inRole .body body]

/-! ## Jumps -/

/-- A statement that may name a label. -/
def labelJump (w : String) : Parser Node := do
  let start ← here
  take w.length
  if ← accept ";" then return ← plain (w ++ "_statement") start
  if ← mayEnd false then return ← plain (w ++ "_statement") start
  let label ← identifier
  semicolon false
  plain (w ++ "_statement") start [label]

def returnStatement (rules : Rules) : Parser Node := do
  let start ← here
  take 6
  if ← accept ";" then return ← plain "return_statement" start
  if ← mayEnd false then return ← plain "return_statement" start
  let v ← rules (.expressions true false)
  semicolon true
  plain "return_statement" start [v]

def throwStatement (rules : Rules) : Parser Node := do
  let start ← here
  take 5
  let v ← rules (.expressions true false)
  semicolon true
  plain "throw_statement" start [v]

/-! ## Modules -/

/-- The module that is imported from or exported from. -/
def fromClause : Parser Node := do
  expectWord "from"
  string

/-- The attributes of an import. -/
def importAttributes (rules : Rules) : Parser (List Node) := do
  let start ← here
  if ← acceptWord "with" then
    let inner ← object rules
    return [← plain "import_attribute" start [inner]]
  else return []

/-- A name in an import or export list: a word or a string. -/
def moduleName : Parser Node := do
  match ← peek? with
  | some '"' => string
  | some '\'' => string
  | _ => memberName

/-- A name, and the name it goes by on the other side. -/
def specifier (kind : String) : Parser Node := do
  let start ← here
  let name ← moduleName
  if ← acceptWord "as" then
    let alias_ ← moduleName
    plain kind start [inRole .name name, inRole (.other "alias") alias_]
  else plain kind start [inRole .name name]

/-- The names in the braces of an import or an export. -/
def specifiers (kind item : String) : Parser Node := do
  let start ← here
  expect "\x7b"
  let names ← commaSeparated "\x7d" (specifier item)
  plain kind start names

/-- The name for everything that a module exports. -/
def namespaceImport : Parser Node := do
  let start ← here
  expect "*"
  expectWord "as"
  let name ← identifier
  plain "namespace_import" start [name]

/-- What is imported from a module. -/
def importClause : Parser Node := do
  let start ← here
  if ← sees "\x7b" then
    let names ← specifiers "named_imports" "import_specifier"
    plain "import_clause" start [names]
  else if ← sees "*" then
    let all ← namespaceImport
    plain "import_clause" start [all]
  else
    let default ← identifier
    if ← accept "," then
      let others ←
        if ← sees "*" then namespaceImport else specifiers "named_imports" "import_specifier"
      plain "import_clause" start [default, others]
    else plain "import_clause" start [default]

def importStatement (rules : Rules) : Parser Node := do
  let start ← here
  take 6
  let parts ←
    match ← peek? with
    | some '"' => pure [← string]
    | some '\'' => pure [← string]
    | _ => do
      let clause ← importClause
      let source ← fromClause
      pure [clause, source]
  let attributes ← importAttributes rules
  semicolon false
  plain "import_statement" start (parts ++ attributes)

/-- What an export declares, or the value it exports. -/
def exported (rules : Rules) : Parser Node := do
  let w ← word
  let declared ←
    if w = "function" then declaresFunction
    else if w = "class" then declaresClass
    else if w = "async" then ahead do
      take 5
      if ← onNewLine then return false
      if (← word) = "function" then declaresFunction else return false
    else pure ((declarationKind? w).isSome && w ≠ "using")
  if declared then rules .statement
  else
    let n ← value rules
    let closed := n.kind == .functionExpression || n.kind == .other "class"
    if closed then
      let _ ← accept ";"
      return n
    else
      semicolon true
      return n

def exportStatement (rules : Rules) : Parser Node := do
  let start ← here
  take 6
  if ← acceptWord "default" then
    let n ← exported rules
    plain "export_statement" start [n]
  else if ← accept "*" then
    let alias_ ← if ← acceptWord "as" then pure [← moduleName] else pure []
    let source ← fromClause
    semicolon false
    plain "export_statement" start (alias_ ++ [source])
  else if ← sees "\x7b" then
    let names ← specifiers "export_clause" "export_specifier"
    let source ← if (← word) = "from" then pure [← fromClause] else pure []
    semicolon false
    plain "export_statement" start (names :: source)
  else
    let marks ← decorators rules
    let n ← rules .statement
    let declares :=
      n.kind == .functionDeclaration || n.kind == .generatorFunctionDeclaration ||
        n.kind == .variableDeclaration || n.kind == .lexicalDeclaration ||
        n.kind == .other "class_declaration" || n.kind == .other "using_declaration"
    if !declares then fail
    plain "export_statement" start (marks ++ [n])

/-! ## Statements -/

/-- An expression as a statement. -/
def expressionStatement (rules : Rules) : Parser Node := do
  let start ← here
  let n ← rules (.expressions true false)
  semicolon true
  node .expressionStatement start [n]

/-- The text at an opening brace may be an object rather than a block. -/
def mayBeObject : Parser Bool :=
  ahead do
    take 1
    match ← peek? with
    | some '"' => return true
    | some '\'' => return true
    | some '[' => return true
    | some c =>
      if c.isDigit then return true
      let w ← word
      if w.isEmpty then return false
      take w.length
      return (← sees ":") || (← sees ",")
    | none => return false

/-- A statement that begins with a word. -/
def wordStatement (rules : Rules) (w : String) : Parser Node := do
  let start ← here
  match w with
  | "if" => ifStatement rules
  | "for" => forStatement rules
  | "while" => whileStatement rules
  | "do" => doStatement rules
  | "switch" => switchStatement rules
  | "try" => tryStatement rules
  | "with" => withStatement rules
  | "break" => labelJump w
  | "continue" => labelJump w
  | "return" => returnStatement rules
  | "throw" => throwStatement rules
  | "debugger" =>
    take 8
    semicolon false
    plain "debugger_statement" start
  | "function" =>
    if ← declaresFunction then functionRest rules start true else expressionStatement rules
  | "async" =>
    let declares ← ahead do
      take 5
      if ← onNewLine then return false
      if (← word) = "function" then declaresFunction else return false
    if declares then
      take 5
      functionRest rules start true
    else labeled start
  | "class" =>
    if ← declaresClass then
      take 5
      classRest rules "class_declaration" start [] true
    else expressionStatement rules
  | "import" =>
    let operand ← ahead do
      take 6
      return (← sees "(") || (← sees ".")
    if operand then expressionStatement rules else importStatement rules
  | "export" => exportStatement rules
  | "await" =>
    let uses ← ahead do
      take 5
      beginsDeclaration (← word)
    if uses && (← ahead do take 5; word) = "using" then
      take 5
      take 5
      declarationRest rules (.other "using_declaration") start
    else labeled start
  | _ =>
    if ← beginsDeclaration w then
      take w.length
      declarationRest rules ((declarationKind? w).getD .variableDeclaration) start
    else labeled start
where
  labeled (start : BytePoint) : Parser Node := do
    let isLabel ← ahead do
      take w.length
      sees ":"
    if isLabel && !reserved.contains w then
      let label ← leaf (.other "statement_identifier") w.length
      take 1
      let body ← rules .statement
      plain "labeled_statement" start [label, inRole .body body]
    else expressionStatement rules

/-- A statement. -/
def statement (rules : Rules) : Parser Node := do
  passMarkup (← get).size
  let start ← here
  match ← peek? with
  | some ';' =>
    take 1
    plain "empty_statement" start
  | some '\x7b' =>
    if ← mayBeObject then orElse (block rules) (expressionStatement rules) else block rules
  | some '@' =>
    let marks ← decorators rules
    expectWord "class"
    classRest rules "class_declaration" start marks true
  | _ =>
    let w ← word
    if w.isEmpty then expressionStatement rules else wordStatement rules w

end BundleSize.Script
