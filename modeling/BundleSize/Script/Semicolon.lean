import BundleSize.Script.Character

/-!
# Where a statement may end without a semicolon

A statement also ends before a closing brace, at the end of the text, and
at a line end after which the statement cannot go on. The text between the
last token and the next one decides, and the first characters of the next
token: an operator, an opening bracket, a comma and the like go on with the
statement; a sign goes on with it unless it is doubled.

A comment between the tokens is looked through as long as it is on the line
of the last token. Where no operand has just ended, a comment that reaches
the end of the line ends the statement itself, unless a comma or an equals
sign follows.
-/

namespace BundleSize.Script

/-- The text after a block comment's opening, and whether the comment spans a line end. -/
def skipBlock (spans : Bool) : List Char → List Char × Bool
  | [] => ([], spans)
  | '*' :: '/' :: rest => (rest, spans)
  | c :: rest => skipBlock (spans || isLineEnd c) rest

/-- What a look through blanks and comments finds. -/
inductive Look where
  /-- A slash that opens no comment. -/
  | slash
  /-- A block comment within the line. -/
  | sameLine (rest : List Char)
  /-- The next token, or the end. -/
  | token (rest : List Char)

/-- Looks through blanks and comments; unless `all` of them are asked for, not past a block
comment. -/
def look (all : Bool) : (fuel : Nat) → (spans : Bool) → List Char → Look
  | 0, _, text => .token text
  | fuel + 1, spans, text =>
    match text.dropWhile isBlank with
    | '/' :: '/' :: rest => look all fuel spans (rest.dropWhile fun c => !isLineEnd c)
    | '/' :: '*' :: rest =>
      let (after, spans) := skipBlock spans rest
      if !all && after.head? ≠ some '/' then if spans then .token after else .sameLine after
      else look all fuel spans after
    | '/' :: _ => .slash
    | rest => .token rest

/-- A letter of a word. -/
def isLetter (c : Char) : Bool := c.isAlpha || (127 < c.toNat && isWordPart c)

/-- The text after a line end cannot go on with the statement. -/
def beginsStatement : List Char → Bool
  | [] => true
  | '.' :: rest => rest.head?.any Char.isDigit
  | '+' :: rest => rest.head? = some '+'
  | '-' :: rest => rest.head? = some '-'
  | '!' :: rest => rest.head? ≠ some '='
  | 'i' :: 'n' :: rest =>
    if !rest.head?.any isLetter then false
    else if "stanceof".toList.isPrefixOf rest then (rest.drop 8).head?.any isLetter
    else true
  | c :: _ => !("`,:;*%><=[(?^|&/".toList.contains c)

/-- The statement ends in the text after its last token, as far as can be told without passing a
comment for good. -/
def endsBefore (afterOperand : Bool) : (fuel : Nat) → List Char → Bool
  | 0, _ => false
  | _, [] => true
  | fuel + 1, c :: rest =>
    let found :=
      if c = '/' then look false fuel false (c :: rest) else .token (c :: rest)
    let commented := c = '/'
    match found with
    | .slash => false
    | .sameLine text => go fuel text
    | .token text =>
      if commented && !afterOperand && text.head? ≠ some ',' && text.head? ≠ some '=' then true
      else go fuel text
where
  go (fuel : Nat) : List Char → Bool
    | [] => false
    | c :: rest =>
      if c = '\x7d' then true
      else if isLineEnd c then
        match look true (fuel + 1) false rest with
        | .slash => false
        | .sameLine text => beginsStatement text
        | .token text => beginsStatement text
      else if isBlank c then endsBefore afterOperand fuel rest
      else false

/-- The text after the comment that comes next, if one does. -/
def afterComment? (text : List Char) : Option (List Char) :=
  match text.dropWhile isBlank with
  | '/' :: '/' :: rest => some (rest.dropWhile fun c => !endsComment c)
  | '/' :: '*' :: rest => some (skipBlock false rest).1
  | _ => none

/-- The statement ends in the text after its last token. -/
def endsStatement (afterOperand : Bool) : (fuel : Nat) → List Char → Bool
  | 0, _ => false
  | fuel + 1, text =>
    if endsBefore afterOperand (text.length + 1) text then true
    else
      match afterComment? text with
      | some rest => endsStatement afterOperand fuel rest
      | none => false

end BundleSize.Script
