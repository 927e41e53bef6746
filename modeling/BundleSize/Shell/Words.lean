/-!
# Words of a command

A command is written as in a shell and is split into words at blanks. A
quote, single or double, makes a stretch of text part of a word, blanks
included; an empty quote is a word of its own or nothing more in a longer
one. A backslash makes the next character an ordinary one. Single quotes
keep backslashes, and in double quotes a backslash only makes a double
quote or another backslash ordinary.
-/

namespace BundleSize.Shell

/-- Why a command has no words. -/
inductive WordsError where
  | unclosedQuote
  | nothingEscaped
  deriving Repr, DecidableEq

def WordsError.message : WordsError → String
  | unclosedQuote => "No closing quotation"
  | nothingEscaped => "No escaped character"

/-- The characters that part words. -/
def isBreak (c : Char) : Bool := c = ' ' || c = '\t' || c = '\r' || c = '\n'

/-- Where in a command a character stands. -/
inductive Place where
  /-- Between two words. -/
  | between
  /-- In a word, outside of quotes. -/
  | inWord
  | inSingle
  | inDouble
  /-- Behind a backslash outside of quotes. -/
  | escaped
  /-- Behind a backslash in double quotes. -/
  | escapedInDouble
  deriving Repr, DecidableEq

/-- The words of a text that begins at a place. The current word's characters so far come in
reverse order. -/
def wordsFrom : Place → (word : List Char) → List Char → Except WordsError (List String)
  | .between, _, [] => .ok []
  | .inWord, word, [] => .ok [String.ofList word.reverse]
  | .inSingle, _, [] | .inDouble, _, [] => .error .unclosedQuote
  | .escaped, _, [] | .escapedInDouble, _, [] => .error .nothingEscaped
  | .between, word, c :: rest =>
    if isBreak c then wordsFrom .between word rest
    else if c = '\\' then wordsFrom .escaped [] rest
    else if c = '\x27' then wordsFrom .inSingle [] rest
    else if c = '"' then wordsFrom .inDouble [] rest
    else wordsFrom .inWord [c] rest
  | .inWord, word, c :: rest =>
    if isBreak c then (wordsFrom .between [] rest).map (String.ofList word.reverse :: ·)
    else if c = '\\' then wordsFrom .escaped word rest
    else if c = '\x27' then wordsFrom .inSingle word rest
    else if c = '"' then wordsFrom .inDouble word rest
    else wordsFrom .inWord (c :: word) rest
  | .inSingle, word, c :: rest =>
    if c = '\x27' then wordsFrom .inWord word rest else wordsFrom .inSingle (c :: word) rest
  | .inDouble, word, c :: rest =>
    if c = '"' then wordsFrom .inWord word rest
    else if c = '\\' then wordsFrom .escapedInDouble word rest
    else wordsFrom .inDouble (c :: word) rest
  | .escaped, word, c :: rest => wordsFrom .inWord (c :: word) rest
  | .escapedInDouble, word, c :: rest =>
    if c = '"' ∨ c = '\\' then wordsFrom .inDouble (c :: word) rest
    else wordsFrom .inDouble (c :: '\\' :: word) rest

/-- The words of a command. -/
def words (command : String) : Except WordsError (List String) :=
  wordsFrom .between [] command.toList

end BundleSize.Shell
