import BundleSize.Script.Character

/-!
# The extent of literals

How many characters a string, a number or a regular expression takes at the
head of a text. A regular expression ends on the line where it begins. A
string goes on to the next line after a backslash; without one, nothing
but blanks and comments may follow on the next lines up to its closing
quote, or up to the end of such a comment.
-/

namespace BundleSize.Script

def isOctalDigit (c : Char) : Bool := '0' ≤ c && c ≤ '7'

/-- The length of an escape after its backslash. -/
def escapeLength? : List Char → Option Nat
  | 'x' :: a :: b :: _ => if isHexDigit a && isHexDigit b then some 3 else none
  | 'u' :: '\x7b' :: rest =>
    let digits := rest.takeWhile isHexDigit
    if !digits.isEmpty && rest[digits.length]? = some '\x7d' then some (digits.length + 3)
    else none
  | 'u' :: a :: b :: c :: d :: _ => if [a, b, c, d].all isHexDigit then some 5 else none
  | 'x' :: _ => none
  | 'u' :: _ => none
  | '\r' :: '\n' :: _ => some 2
  | c :: rest => if isOctalDigit c then some (1 + ((rest.take 2).takeWhile isOctalDigit).length) else some 1
  | [] => none

/-- The length of a string after its opening quote, the closing one included. -/
def stringRest? (quote : Char) : (fuel : Nat) → List Char → Option Nat
  | 0, _ => none
  | _, [] => none
  | fuel + 1, c :: rest =>
    if c = quote then some 1
    else if c = '\n' || c = '\r' then
      let blanks := ((c :: rest).takeWhile isBlank).length
      let after := (c :: rest).drop blanks
      if after.head? = some quote then some (blanks + 1)
      else do
        let n ← commentLength? after
        let later ← stringRest? quote fuel (after.drop n)
        return blanks + n + later
    else if c = '\\' then do
      let n ← escapeLength? rest
      let later ← stringRest? quote fuel (rest.drop n)
      return 1 + n + later
    else (stringRest? quote fuel rest).map (1 + ·)

/-- The length of a regular expression after its opening slash, the closing one included. -/
def regexRest? (inSet : Bool) : List Char → Option Nat
  | [] => none
  | '\\' :: '\n' :: _ => none
  | '\\' :: _ :: rest => (regexRest? inSet rest).map (2 + ·)
  | c :: rest =>
    if c = '\n' then none
    else if c = '/' && !inSet then some 1
    else (regexRest? (if c = '[' then true else if c = ']' then false else inSet) rest).map (1 + ·)

/-- The length of a regular expression with its flags. -/
def regexLength? (text : List Char) : Option Nat := do
  let body ← regexRest? false (text.drop 1)
  if body = 1 then none
  else
    let flags := (text.drop (1 + body)).takeWhile fun c => 'a' ≤ c && c ≤ 'z'
    return 1 + body + flags.length

/-- The length of a run of digits with single underscores between them, after its first digit. -/
def laterDigits (isDigit : Char → Bool) : List Char → Nat
  | [] => 0
  | [c] => if isDigit c then 1 else 0
  | c :: d :: rest =>
    if c = '_' && isDigit d then 2 + laterDigits isDigit rest
    else if isDigit c then 1 + laterDigits isDigit (d :: rest)
    else 0

/-- The length of a run of digits with single underscores between them. -/
def digitsLength (isDigit : Char → Bool) : List Char → Nat
  | [] => 0
  | c :: rest => if isDigit c then 1 + laterDigits isDigit rest else 0

/-- The length of an exponent, if one stands at the head of the text. -/
def exponentLength : List Char → Nat
  | e :: rest =>
    if e = 'e' || e = 'E' then
      let signs := (rest.take 1).takeWhile fun c => c = '+' || c = '-'
      let digits := digitsLength Char.isDigit (rest.drop signs.length)
      if digits = 0 then 0 else 1 + signs.length + digits
    else 0
  | [] => 0

/-- The length with the letter of a large integer, if that follows. -/
def withSuffix (text : List Char) (length : Nat) : Nat :=
  if (text.drop length).head? = some 'n' then length + 1 else length

/-- The length of the whole part of a decimal: a zero, or digits of which at most the first is
zero. -/
def wholeLength : List Char → Nat
  | '0' :: d :: rest =>
    if d.isDigit && d ≠ '0' then 1 + digitsLength Char.isDigit (d :: rest) else 1
  | text => digitsLength Char.isDigit text

/-- The length of a decimal with a point or an exponent, zero if it has neither. -/
def fractionalLength (text : List Char) : Nat :=
  let whole := wholeLength text
  match text.drop whole with
  | '.' :: rest =>
    let fraction := digitsLength Char.isDigit rest
    if whole + fraction = 0 then 0
    else whole + 1 + fraction + exponentLength (rest.drop fraction)
  | rest =>
    let exponent := exponentLength rest
    if exponent = 0 then 0 else whole + exponent

/-- The digits of the base that a letter after a zero stands for. -/
def baseDigit? (letter : Char) : Option (Char → Bool) :=
  if letter = 'x' || letter = 'X' then some isHexDigit
  else if letter = 'o' || letter = 'O' then some isOctalDigit
  else if letter = 'b' || letter = 'B' then some fun c => c = '0' || c = '1'
  else none

/-- The length of a number in a base other than ten, zero if none stands at the head. -/
def basedLength : List Char → Nat
  | '0' :: letter :: rest =>
    match baseDigit? letter with
    | some isDigit =>
      let digits := digitsLength isDigit rest
      if digits = 0 then 0 else withSuffix ('0' :: letter :: rest) (2 + digits)
    | none => 0
  | _ => 0

/-- The length of a number: the longest that some form of it has. -/
def numberLength (text : List Char) : Nat :=
  let digits := digitsLength Char.isDigit text
  let plain := if digits = 0 then 0 else withSuffix text digits
  max plain (max (fractionalLength text) (basedLength text))

/-- The number of characters of a template up to a backquote, a backslash or a substitution. -/
def templateRun : List Char → Nat
  | [] => 0
  | '`' :: _ => 0
  | '\\' :: _ => 0
  | '$' :: '\x7b' :: _ => 0
  | _ :: rest => 1 + templateRun rest

end BundleSize.Script
