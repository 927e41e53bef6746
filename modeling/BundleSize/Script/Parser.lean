import BundleSize.Script.Character
import BundleSize.Script.Semicolon
import BundleSize.Syntax.Node

/-!
# Moving through a script

A parser moves through the text token by token. After every token the
blanks and comments up to the next one are passed over, and the comments
kept aside: they belong to the tree but not to the grammar. What follows
the last token is remembered too, because it decides where a statement may
end without a semicolon.

A parser that fails gives the place of the token it could not take, and
leaves the place where it started to the next alternative.
-/

namespace BundleSize.Script

/-- A comment's place and kind. -/
structure Comment where
  start : BytePoint
  stop : Nat
  kind : NodeKind := .comment
  deriving Repr

/-- The place after one more character. -/
def BytePoint.after (p : BytePoint) (c : Char) : BytePoint :=
  let width := c.utf8Size
  if c = '\n' then ⟨p.offset + width, p.row + 1, 0⟩
  else ⟨p.offset + width, p.row, p.column + width⟩

/-- A text to be read and the place where it begins. -/
structure Spot where
  rest : List Char
  at_ : BytePoint

namespace Spot

/-- Passes over `n` characters. -/
def skip (s : Spot) : Nat → Spot
  | 0 => s
  | n + 1 =>
    match s.rest with
    | [] => s
    | c :: rest => skip ⟨rest, BytePoint.after s.at_ c⟩ n

/-- Passes over characters while the test accepts them. -/
def skipWhile (s : Spot) (accepts : Char → Bool) : Spot :=
  s.skip (s.rest.takeWhile accepts).length

end Spot

/-- Passes over blanks and comments, adding the comments to `seen`, latest first. -/
def skipTrivia : (fuel : Nat) → Spot → List Comment → Spot × List Comment
  | 0, s, seen => (s, seen)
  | fuel + 1, s, seen =>
    let s := s.skipWhile isBlank
    match commentLength? s.rest with
    | none => (s, seen)
    | some n =>
      let after := s.skip n
      skipTrivia fuel after ({ start := s.at_, stop := after.at_.offset } :: seen)

/-- The state of a parser. -/
structure Input where
  /-- The next token and what follows it. -/
  next : Spot
  /-- The byte offset just after the last token. -/
  last : Nat
  /-- The text just after the last token. -/
  after : List Char
  /-- The comments passed so far, latest first. -/
  comments : List Comment
  /-- No less than the number of tokens of the whole text. -/
  size : Nat

/-- A parser; it fails at a place. -/
abbrev Parser := StateT Input (Except BytePoint)

namespace Parser

def fail : Parser α := do throw (← get).next.at_

/-- The text from the next token on. -/
def rest : Parser (List Char) := return (← get).next.rest

/-- The place of the next token. -/
def here : Parser BytePoint := return (← get).next.at_

/-- The first character of the next token. -/
def peek? : Parser (Option Char) := return (← rest).head?

/-- Tries the first parser and, if it fails, the second one from the same place. -/
def orElse (p q : Parser α) : Parser α := fun s =>
  match p s with
  | .ok r => .ok r
  | .error _ => q s

/-- What a parser gives, without moving. -/
def ahead (p : Parser α) : Parser α := fun s =>
  match p s with
  | .ok (a, _) => .ok (a, s)
  | .error e => .error e

/-- Takes `n` characters and nothing after them. -/
def takeRaw (n : Nat) : Parser Unit :=
  modify fun s =>
    let next := s.next.skip n
    { s with next, last := next.at_.offset, after := next.rest }

/-- Passes over blanks and comments. -/
def passTrivia : Parser Unit :=
  modify fun s =>
    let (next, comments) := skipTrivia s.size s.next s.comments
    { s with next, comments }

/-- Takes a token of `n` characters. -/
def take (n : Nat) : Parser Unit := do
  takeRaw n
  passTrivia

/-- The text from the next token on begins with `symbol`. -/
def sees (symbol : String) : Parser Bool := return symbol.toList.isPrefixOf (← rest)

/-- Takes the symbol if it comes next. -/
def accept (symbol : String) : Parser Bool := do
  if ← sees symbol then
    take symbol.length
    return true
  else return false

def expect (symbol : String) : Parser Unit := do
  if !(← accept symbol) then fail

/-- The word that comes next, empty if none does. -/
def word : Parser String := do
  let text ← rest
  return String.ofList (text.take (wordLength (← get).size false text))

/-- Takes the word if it comes next. -/
def acceptWord (w : String) : Parser Bool := do
  if (← word) = w then
    take w.length
    return true
  else return false

def expectWord (w : String) : Parser Unit := do
  if !(← acceptWord w) then fail

/-- A line ends between the last token and the next one. -/
def onNewLine : Parser Bool := do
  let s ← get
  return (s.after.take (s.after.length - s.next.rest.length)).any isLineEnd

/-- The statement may end here without a semicolon. -/
def mayEnd (afterOperand : Bool) : Parser Bool := do
  let s ← get
  return endsStatement afterOperand s.size s.after

/-- The end of a statement. -/
def semicolon (afterOperand : Bool) : Parser Unit := do
  if ← accept ";" then return
  if ← mayEnd afterOperand then return
  fail

/-- Passes over the line comments that begin with an angle bracket or close with one. They are
comments where neither an operator nor the end of a statement is looked for. -/
def passMarkup : (fuel : Nat) → Parser Unit
  | 0 => return
  | fuel + 1 => do
    if (← sees "<!--") || (← sees "-->") then
      modify fun s =>
        let next := s.next.skipWhile fun c => !isLineEnd c
        let comment : Comment :=
          { start := s.next.at_, stop := next.at_.offset, kind := .other "html_comment" }
        { s with next, comments := comment :: s.comments }
      passTrivia
      passMarkup fuel

/-- Repeats a step until it gives a result. -/
def loop (step : σ → Parser (σ ⊕ α)) : (fuel : Nat) → σ → Parser α
  | 0, _ => fail
  | fuel + 1, s => do
    match ← step s with
    | .inl s => loop step fuel s
    | .inr a => return a

/-- Repeats a step as often as the text could need. -/
def untilDone (step : σ → Parser (σ ⊕ α)) (s : σ) : Parser α := do
  loop step ((← get).size + 1) s

/-- A node from `start` to the last token. -/
def node (kind : NodeKind) (start : BytePoint) (children : List Node := []) : Parser Node := do
  return { kind, start, stop := (← get).last, children }

/-- A node of a kind that is known by its name only. -/
def plain (kind : String) (start : BytePoint) (children : List Node := []) : Parser Node :=
  node (.other kind) start children

/-- Takes a token of `n` characters as a leaf. -/
def leaf (kind : NodeKind) (n : Nat) : Parser Node := do
  let start ← here
  takeRaw n
  let leaf ← node kind start
  passTrivia
  return leaf

end Parser

/-- The node in a role of its parent. -/
def inRole (role : Role) (n : Node) : Node := { n with role := some role }

end BundleSize.Script
