import BundleSize.Pattern.Basic
import BundleSize.Text.Character
import BundleSize.Text.Quoted

/-!
# Reading name patterns

A pattern is cut into tokens, single characters and backslash pairs, and
read from left to right with one token of foresight: a backslash that ends
the pattern is reported as soon as it comes into sight. A brace that begins
no repetition stands for itself.

The error of a malformed pattern names its place by the offset, and also by
line and column when the pattern has several lines. Flags, references,
assertions and whatever else names do not need are not read, which is an error
of its own: such a text may well be a pattern.
-/

namespace BundleSize.Pattern

/-- What is wrong with a pattern. -/
inductive Fault where
  | danglingBackslash
  | incompleteEscape (escape : String)
  | unknownEscape (escape : String)
  | octalTooLarge (escape : String)
  | noSuchGroup (number : Nat)
  | openGroup
  | unterminatedSet
  | badRange (first last : String)
  | nothingToRepeat
  | multipleRepeat
  | emptyBounds
  | unexpectedEnd
  | unknownExtension (text : String)
  | unterminatedComment
  | unterminatedGroup
  | unbalancedParenthesis
  /-- A construct that names do not need: flags, references, assertions and the like. -/
  | unsupported (text : String)
  deriving Repr, DecidableEq

def Fault.message : Fault → String
  | .danglingBackslash => "bad escape (end of pattern)"
  | .incompleteEscape escape => "incomplete escape " ++ escape
  | .unknownEscape escape => "bad escape " ++ escape
  | .octalTooLarge escape => "octal escape value " ++ escape ++ " outside of range 0-0o377"
  | .noSuchGroup number => "invalid group reference " ++ toString number
  | .openGroup => "cannot refer to an open group"
  | .unterminatedSet => "unterminated character set"
  | .badRange first last => "bad character range " ++ first ++ "-" ++ last
  | .nothingToRepeat => "nothing to repeat"
  | .multipleRepeat => "multiple repeat"
  | .emptyBounds => "min repeat greater than max repeat"
  | .unexpectedEnd => "unexpected end of pattern"
  | .unknownExtension text => "unknown extension ?" ++ text
  | .unterminatedComment => "missing ), unterminated comment"
  | .unterminatedGroup => "missing ), unterminated subpattern"
  | .unbalancedParenthesis => "unbalanced parenthesis"
  | .unsupported text => "unsupported construct " ++ text

/-- Why no pattern is made of a text. -/
inductive ReadError where
  | malformed (pattern : String) (fault : Fault) (offset : Nat)
  | repetitionTooLarge
  /-- The text may well be a pattern, but one with a construct that is not read here. -/
  | unsupported (construct : String)
  /-- A library of patterns has an error of its own, given by its kind and message. -/
  | raised (kind message : String)
  deriving Repr, DecidableEq

def ReadError.message : ReadError → String
  | .malformed pattern fault offset =>
    let chars := pattern.toList
    let before := chars.take offset
    let place := fault.message ++ " at position " ++ toString offset
    if chars.contains '\n' then
      place ++ " (line " ++ toString (before.count '\n' + 1) ++ ", column "
        ++ toString ((before.reverse.takeWhile (· ≠ '\n')).length + 1) ++ ")"
    else place
  | .repetitionTooLarge => "the repetition number is too large"
  | .unsupported construct => "unsupported construct " ++ construct
  | .raised _ message => message

/-- The word for the kind of an error. -/
def ReadError.kind : ReadError → String
  | .malformed .. => "error"
  | .repetitionTooLarge => "OverflowError"
  | .unsupported _ => "NotImplementedError"
  | .raised kind _ => kind

/-! ## Tokens -/

/-- A character, a backslash with the character after it, or the backslash that ends a pattern. -/
inductive Token where
  | char (c : Char)
  | escape (c : Char)
  | dangling
  deriving Repr, DecidableEq

namespace Token

def text : Token → String
  | char c => String.singleton c
  | escape c => String.ofList ['\\', c]
  | dangling => "\\"

def length : Token → Nat
  | escape _ => 2
  | _ => 1

end Token

/-- The tokens of a pattern. -/
def tokens : List Char → List Token
  | [] => []
  | ['\\'] => [.dangling]
  | '\\' :: c :: rest => .escape c :: tokens rest
  | c :: rest => .char c :: tokens rest

/-- What is still to be read, the offset of the next token, and the groups seen so far. -/
structure Source where
  rest : List Token
  offset : Nat := 0
  groups : Nat := 0
  unclosed : List Nat := []

/-- Why reading stops. -/
inductive Stop where
  | fault (fault : Fault) (offset : Nat)
  | repetitionTooLarge

abbrev Reader := StateT Source (Except Stop)

namespace Reader

def fail (fault : Fault) (offset : Nat) : Reader α := throw (.fault fault offset)

def next? : Reader (Option Token) := return (← get).rest.head?

def offset : Reader Nat := return (← get).offset

/-- The token in sight is not a backslash that ends the pattern. -/
def checkSight : Reader Unit := do
  if (← next?) = some .dangling then fail .danglingBackslash (← offset)

/-- Takes the next token, if there is one. -/
def take? : Reader (Option Token) := do
  match (← get).rest with
  | [] => return none
  | token :: rest =>
    modify fun s => { s with rest, offset := s.offset + token.length }
    checkSight
    return some token

/-- Takes the next token if it is the given character. -/
def accept (c : Char) : Reader Bool := do
  if (← next?) = some (.char c) then
    let _ ← take?
    return true
  else return false

/-- Takes up to `n` characters that the test accepts. -/
def takeUpTo (accepts : Char → Bool) : Nat → Reader (List Char)
  | 0 => return []
  | n + 1 => do
    match ← next? with
    | some (.char c) =>
      if accepts c then
        let _ ← take?
        return c :: (← takeUpTo accepts n)
      else return []
    | _ => return []

end Reader

open Reader

/-! ## Escapes -/

/-- An element of a sequence or of a set. -/
inductive Element where
  | code (code : Nat)
  | charClass (which : CharClass) (negated : Bool)
  | assertion (a : Assertion)
  deriving Repr, DecidableEq

def isHex (c : Char) : Bool := (Text.hexValue? c).isSome

def isOctal (c : Char) : Bool := '0' ≤ c && c ≤ '7'

def isAsciiLetter (c : Char) : Bool := ('a' ≤ c && c ≤ 'z') || ('A' ≤ c && c ≤ 'Z')

def numberIn (base : Nat) (digits : List Char) : Nat :=
  digits.foldl (fun n d => n * base + (Text.hexValue? d).getD 0) 0

/-- Escapes with the same meaning inside and outside a set. -/
def commonEscape? : Char → Option Element
  | 'a' => some (.code 7)
  | 'f' => some (.code 12)
  | 'n' => some (.code 10)
  | 'r' => some (.code 13)
  | 't' => some (.code 9)
  | 'v' => some (.code 11)
  | '\\' => some (.code 92)
  | 'd' => some (.charClass .decimal false)
  | 'D' => some (.charClass .decimal true)
  | 's' => some (.charClass .blank false)
  | 'S' => some (.charClass .blank true)
  | 'w' => some (.charClass .word false)
  | 'W' => some (.charClass .word true)
  | _ => none

/-- Escapes that stand for a place. -/
def assertionEscape? : Char → Option Assertion
  | 'A' => some .start
  | 'b' => some .wordBoundary
  | 'B' => some .notWordBoundary
  | 'Z' => some .stop
  | _ => none

/-- A code point written in exactly `n` hexadecimal digits after the escape `\c`. -/
def hexEscape (c : Char) (start n : Nat) : Reader Nat := do
  let digits ← takeUpTo isHex n
  if digits.length < n then fail (.incompleteEscape (String.ofList ('\\' :: c :: digits))) start
  return numberIn 16 digits

/-- The number of hexadecimal digits that an escape is followed by. -/
def hexWidth? : Char → Option Nat
  | 'x' => some 2
  | 'u' => some 4
  | 'U' => some 8
  | _ => none

/-- An escape that names a code point or stands for its own character. -/
def codeEscape (c : Char) (start : Nat) : Reader Element := do
  let unknown := Fault.unknownEscape (String.ofList ['\\', c])
  match hexWidth? c with
  | some width =>
    let code ← hexEscape c start width
    if 0x110000 ≤ code then
      fail (.unknownEscape (String.ofList ('\\' :: c :: Text.hexDigits width code))) start
    return .code code
  | none =>
    if c = 'N' then fail (.unsupported "\\N") start
    else if isAsciiLetter c then fail unknown start
    else return .code c.toNat

/-- A backslash pair inside a set; it begins at `start` and has been taken. -/
def setEscape (c : Char) (start : Nat) : Reader Element := do
  match commonEscape? c with
  | some element => return element
  | none =>
    if c = 'b' then return .code 8
    else if isOctal c then
      let digits := c :: (← takeUpTo isOctal 2)
      let code := numberIn 8 digits
      if 0o377 < code then fail (.octalTooLarge (String.ofList ('\\' :: digits))) start
      return .code code
    else if c.isDigit then fail (.unknownEscape (String.ofList ['\\', c])) start
    else codeEscape c start

/-- A reference to a group, or a code point in three octal digits. -/
def digitEscape (c : Char) (start : Nat) : Reader Element := do
  let more ← takeUpTo Char.isDigit 1
  let digits := c :: more
  let third ←
    if more.length = 1 ∧ digits.all isOctal then takeUpTo isOctal 1 else pure []
  if third.length = 1 then
    let digits := digits ++ third
    let code := numberIn 8 digits
    if 0o377 < code then fail (.octalTooLarge (String.ofList ('\\' :: digits))) start
    return .code code
  let number := numberIn 10 digits
  let s ← get
  if number ≤ s.groups then
    if s.unclosed.contains number then fail .openGroup start
    else fail (.unsupported (String.ofList ('\\' :: digits))) start
  else fail (.noSuchGroup number) (start + 1)

/-- A backslash pair outside a set; it begins at `start` and has been taken. -/
def sequenceEscape (c : Char) (start : Nat) : Reader Element := do
  match assertionEscape? c with
  | some a => return .assertion a
  | none =>
    match commonEscape? c with
    | some element => return element
    | none =>
      if c = '0' then return .code (numberIn 8 (← takeUpTo isOctal 2))
      else if c.isDigit then digitEscape c start
      else codeEscape c start

/-! ## Sets -/

def Element.setItem : Element → SetItem
  | .code n => .range n n
  | .charClass which negated => .charClass which negated
  | .assertion _ => .range 1 0

/-- One end of a range, or a member of its own. -/
def setElement (token : Token) (start : Nat) : Reader Element :=
  match token with
  | .escape c => setEscape c start
  | .char c => return .code c.toNat
  | .dangling => fail .danglingBackslash start

/-- The members of a set from the next one on; the set began at `opening`. -/
def setItems (opening : Nat) : (fuel : Nat) → List SetItem → Reader (List SetItem)
  | 0, _ => fail .unterminatedSet opening
  | fuel + 1, done => do
    let start ← offset
    match ← take? with
    | none => fail .unterminatedSet opening
    | some token =>
      if token = .char ']' ∧ !done.isEmpty then return done
      let first ← setElement token start
      if ← accept '-' then
        let lastStart ← offset
        match ← take? with
        | none => fail .unterminatedSet opening
        | some (.char ']') => return done ++ [first.setItem, .range 45 45]
        | some lastToken =>
          let last ← setElement lastToken lastStart
          let place := (← offset) - (token.length + 1 + lastToken.length)
          match first, last with
          | .code lo, .code hi =>
            if hi < lo then fail (.badRange token.text lastToken.text) place
            setItems opening fuel (done ++ [.range lo hi])
          | _, _ => fail (.badRange token.text lastToken.text) place
      else setItems opening fuel (done ++ [first.setItem])

/-! ## Repetitions -/

/-- The bounds of a repetition. -/
structure Bounds where
  least : Nat
  most : Option Nat

/-- The first number that is too large for a bound. -/
def boundLimit : Nat := 4294967295

/-- A bound, when it was written. -/
def bound (digits : List Char) : Reader (Option Nat) := do
  if digits.isEmpty then return none
  let n := numberIn 10 digits
  if boundLimit ≤ n then throw .repetitionTooLarge
  return some n

/-- The bounds after an opening brace, or nothing when no repetition is written there. -/
def braces (fuel : Nat) : Reader (Option Bounds) := do
  let before ← get
  if (← next?) = some (.char '}') then return none
  let low ← takeUpTo Char.isDigit fuel
  let comma ← accept ','
  let high ← if comma then takeUpTo Char.isDigit fuel else pure low
  if !(← accept '}') then
    modify fun _ => before
    return none
  let least ← bound low
  let most ← bound high
  if let (some least, some most) := (least, most) then
    if most < least then fail .emptyBounds before.offset
  return some ⟨least.getD 0, most⟩

/-! ## Sequences and alternatives -/

/-- What may follow an item of a sequence. -/
inductive ItemKind where
  | plain | assertion | repeated
  deriving DecidableEq

def Element.item : Element → Pattern × ItemKind
  | .code n => (Pattern.char n, .plain)
  | .charClass which negated => (.set [.charClass which negated] false, .plain)
  | .assertion a => (.assertion a, .assertion)

/-- The items of a sequence, the latest first, as one pattern. -/
def sequenceOf (items : List (Pattern × ItemKind)) : Pattern :=
  items.foldl (fun later item => .seq item.1 later) .empty

/-- Repeats the latest item; the repetition's mark stands at `start`. -/
def repeated (start : Nat) (bounds : Bounds) :
    List (Pattern × ItemKind) → Reader (List (Pattern × ItemKind))
  | [] => fail .nothingToRepeat start
  | (_, .assertion) :: _ => fail .nothingToRepeat start
  | (_, .repeated) :: _ => fail .multipleRepeat start
  | (p, .plain) :: items => do
    if !(← accept '?') then
      if (← next?) = some (.char '+') then fail (.unsupported "+") (← offset)
    return (.repeat p bounds.least bounds.most, .repeated) :: items

/-- Passes over a comment; its group began at `opening`. -/
def skipComment (opening : Nat) : (fuel : Nat) → Reader Unit
  | 0 => fail .unterminatedComment opening
  | fuel + 1 => do
    match ← take? with
    | none => fail .unterminatedComment opening
    | some (.char ')') => return
    | some _ => skipComment opening fuel

/-- The kinds of groups that begin with a question mark. -/
inductive Extension where
  | plain | comment

/-- The kind of the group whose question mark has just been taken. -/
def extension : Reader Extension := do
  match ← take? with
  | none => fail .unexpectedEnd (← offset)
  | some (.char ':') => return .plain
  | some (.char '#') => return .comment
  | some (.char 'P') =>
    match ← take? with
    | none => fail .unexpectedEnd (← offset)
    | some token =>
      let place := (← offset) - (token.length + 2)
      if token = .char '<' ∨ token = .char '=' then fail (.unsupported ("?P" ++ token.text)) place
      else fail (.unknownExtension ("P" ++ token.text)) place
  | some (.char '<') =>
    match ← take? with
    | none => fail .unexpectedEnd (← offset)
    | some token =>
      let place := (← offset) - (token.length + 2)
      if token = .char '!' ∨ token = .char '=' then fail (.unsupported ("?<" ++ token.text)) place
      else fail (.unknownExtension ("<" ++ token.text)) place
  | some token =>
    let place := (← offset) - (token.length + 1)
    let known := ['=', '!', '(', '>', '-', 'i', 'L', 'm', 's', 'x', 'a', 'u']
    if known.any fun c => token = .char c then fail (.unsupported ("?" ++ token.text)) place
    else fail (.unknownExtension token.text) place

/-- Opens a group that can be referred to. -/
def openGroup : Reader Nat := do
  modify fun s => { s with groups := s.groups + 1, unclosed := (s.groups + 1) :: s.unclosed }
  return (← get).groups

def closeGroup (number : Nat) : Reader Unit :=
  modify fun s => { s with unclosed := s.unclosed.filter (· ≠ number) }

mutual

/-- Alternatives up to a closing parenthesis or the end. -/
def alternatives : (fuel : Nat) → Reader Pattern
  | 0 => fail .unexpectedEnd 0
  | fuel + 1 => do
    let first ← sequence fuel []
    if ← accept '|' then
      let others ← alternatives fuel
      return .alt first others
    else return first

/-- A sequence whose items so far are `done`, the latest first. -/
def sequence : (fuel : Nat) → List (Pattern × ItemKind) → Reader Pattern
  | 0, _ => fail .unexpectedEnd 0
  | fuel + 1, done => do
    match ← next? with
    | none | some (.char '|') | some (.char ')') => return sequenceOf done
    | some token =>
      let start ← offset
      let _ ← take?
      match token with
      | .dangling => fail .danglingBackslash start
      | .escape c => sequence fuel ((← sequenceEscape c start).item :: done)
      | .char '[' =>
        let negated ← accept '^'
        let items ← setItems start fuel []
        sequence fuel ((.set items negated, .plain) :: done)
      | .char '?' => sequence fuel (← repeated start ⟨0, some 1⟩ done)
      | .char '*' => sequence fuel (← repeated start ⟨0, none⟩ done)
      | .char '+' => sequence fuel (← repeated start ⟨1, none⟩ done)
      | .char '{' =>
        match ← braces fuel with
        | some bounds => sequence fuel (← repeated start bounds done)
        | none => sequence fuel ((Pattern.char '{'.toNat, .plain) :: done)
      | .char '.' => sequence fuel ((.any, .plain) :: done)
      | .char '^' => sequence fuel ((.assertion .start, .assertion) :: done)
      | .char '$' => sequence fuel ((.assertion .lineEnd, .assertion) :: done)
      | .char '(' =>
        let kind ← if ← accept '?' then some <$> extension else pure none
        match kind with
        | some .comment =>
          skipComment start fuel
          sequence fuel done
        | some .plain =>
          let inner ← alternatives fuel
          if !(← accept ')') then fail .unterminatedGroup start
          sequence fuel ((inner, .plain) :: done)
        | none =>
          let number ← openGroup
          let inner ← alternatives fuel
          if !(← accept ')') then fail .unterminatedGroup start
          closeGroup number
          sequence fuel ((inner, .plain) :: done)
      | .char c => sequence fuel ((Pattern.char c.toNat, .plain) :: done)

end

/-- Reads a pattern. -/
def read (text : String) : Except ReadError Pattern :=
  let source : Source := { rest := tokens text.toList }
  let whole : Reader Pattern := do
    checkSight
    let p ← alternatives (2 * source.rest.length + 2)
    if (← next?).isSome then fail .unbalancedParenthesis (← offset)
    return p
  match whole.run source with
  | .ok (p, _) => .ok p
  | .error (.fault (.unsupported construct) _) => .error (.unsupported construct)
  | .error (.fault fault offset) => .error (.malformed text fault offset)
  | .error .repetitionTooLarge => .error .repetitionTooLarge

end BundleSize.Pattern
