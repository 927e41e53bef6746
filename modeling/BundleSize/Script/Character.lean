/-!
# Characters and comments of a script

Blanks may stand between any two tokens. A word is a run of characters that
are neither blank nor punctuation nor control; its first character is no
digit. Everything beyond ASCII that is not blank may stand in a word. A
comment lasts to the end of its line or to its closing.
-/

namespace BundleSize.Script

/-- White space between tokens, the byte order mark and the invisible joiners included. -/
def isBlank (c : Char) : Bool :=
  let n := c.toNat
  n == 0x20 || (9 ≤ n && n ≤ 13) || n == 0xa0 || n == 0x1680 || (0x2000 ≤ n && n ≤ 0x200b) ||
    n == 0x2028 || n == 0x2029 || n == 0x202f || n == 0x205f || n == 0x2060 || n == 0x3000 ||
    n == 0xfeff

/-- The end of a line. -/
def isLineEnd (c : Char) : Bool := c == '\n' || c == '\u2028' || c == '\u2029'

/-- The end of a comment that lasts to the end of its line. -/
def endsComment (c : Char) : Bool := isLineEnd c || c == '\r'

/-- The number of characters of a block comment after its opening, if it is closed. -/
def blockLength? : List Char → Option Nat
  | [] => none
  | '*' :: '/' :: _ => some 2
  | _ :: rest => (blockLength? rest).map (· + 1)

/-- The number of characters of the comment at the head of the text. -/
def commentLength? : List Char → Option Nat
  | '/' :: '/' :: rest => some (2 + (rest.takeWhile fun c => !endsComment c).length)
  | '/' :: '*' :: rest => (blockLength? rest).map (· + 2)
  | _ => none

/-- The ASCII characters that stand in no word. -/
def punctuation : List Char := ":;`\"'@#.,|^&<=>+-*/\\%?!~()[]\x7b\x7d".toList

/-- The character may stand in a word. -/
def isWordPart (c : Char) : Bool := 0x20 ≤ c.toNat && !isBlank c && !punctuation.contains c

/-- The character may begin a word. -/
def isWordStart (c : Char) : Bool := isWordPart c && !c.isDigit

/-- A hexadecimal digit. -/
def isHexDigit (c : Char) : Bool :=
  c.isDigit || ('a' ≤ c && c ≤ 'f') || ('A' ≤ c && c ≤ 'F')

/-- The length of an escaped character of a word, a backslash with a code point. -/
def wordEscape? : List Char → Option Nat
  | '\\' :: 'u' :: '\x7b' :: rest =>
    let digits := rest.takeWhile isHexDigit
    if digits.isEmpty then none
    else if rest[digits.length]? = some '\x7d' then some (digits.length + 4)
    else none
  | '\\' :: 'u' :: a :: b :: c :: d :: _ => if [a, b, c, d].all isHexDigit then some 6 else none
  | _ => none

/-- The number of characters of the word at the head of the text, `begun` telling whether some
of it stands before. -/
def wordLength : (fuel : Nat) → (begun : Bool) → List Char → Nat
  | 0, _, _ => 0
  | _, _, [] => 0
  | fuel + 1, begun, c :: rest =>
    if isWordStart c || (begun && isWordPart c) then 1 + wordLength fuel true rest
    else
      match wordEscape? (c :: rest) with
      | some n => n + wordLength fuel true ((c :: rest).drop n)
      | none => 0

/-- Words that are never names. -/
def reserved : List String :=
  ["break", "case", "catch", "class", "const", "continue", "debugger", "default", "delete", "do",
    "else", "export", "extends", "false", "finally", "for", "function", "if", "import", "in",
    "instanceof", "new", "null", "return", "super", "switch", "this", "throw", "true", "try",
    "typeof", "var", "void", "while", "with"]

end BundleSize.Script
