import BundleSize.Text.Character
import BundleSize.Text.Quoted

/-!
# Switches

A command line is a list of arguments. An argument that begins with a dash
is a switch, in its long form or in its short one; a long form may be cut
as long as it fits one switch only. A value may be attached to a switch:
behind an equals sign, or directly behind the letter of a short form.

A dash alone, a negative number and an argument with a space in it are
operands all the same, unless they fit a switch. Behind two dashes there
are operands only.
-/

namespace BundleSize

/-- The switches of the command line. -/
inductive Switch where
  | help | minify | limit
  deriving Repr, DecidableEq

namespace Switch

/-- All switches, in the order in which they are listed. -/
def all : List Switch := [help, minify, limit]

def long : Switch → String
  | help => "--help"
  | minify => "--terser"
  | limit => "--limit"

/-- The letter of the short form. -/
def letter? : Switch → Option Char
  | help => some 'h'
  | minify => some 't'
  | limit => none

/-- The switch wants a value. -/
def wantsValue (s : Switch) : Bool := s = limit

/-- Both forms, as error messages show them. -/
def title (s : Switch) : String :=
  match s.letter? with
  | some c => "-" ++ c.toString ++ "/" ++ s.long
  | none => s.long

def ofLetter? (c : Char) : Option Switch := all.find? fun s => s.letter? = some c

/-- The switches whose long forms begin with a text. -/
def fitting (start : List Char) : List Switch := all.filter fun s => start.isPrefixOf s.long.toList

end Switch

/-- What is wrong with a command line. -/
inductive UsageError where
  | ambiguous (argument : String) (candidates : List Switch)
  | unwantedValue (switch : Switch) (value : String)
  | valueRequired (switch : Switch)
  | notANumber (switch : Switch) (value : String)
  | fileRequired
  | unrecognized (arguments : List String)
  deriving Repr, DecidableEq

def UsageError.message : UsageError → String
  | ambiguous argument candidates =>
    "ambiguous option: " ++ argument ++ " could match "
      ++ ", ".intercalate (candidates.map Switch.long)
  | unwantedValue switch value =>
    "argument " ++ switch.title ++ ": ignored explicit argument " ++ Text.quoted value
  | valueRequired switch => "argument " ++ switch.title ++ ": expected one argument"
  | notANumber switch value =>
    "argument " ++ switch.title ++ ": invalid int value: " ++ Text.quoted value
  | fileRequired => "the following arguments are required: filename"
  | unrecognized arguments => "unrecognized arguments: " ++ " ".intercalate arguments

/-- What an argument stands for. -/
inductive Argument where
  | operand (text : String)
  /-- The two dashes before operands. -/
  | divider
  | long (switch : Switch) (value : Option String)
  /-- A short form, with what is attached behind an equals sign or behind its letter. -/
  | short (switch : Switch) (equals : Bool) (attached : List Char)
  | unknown (text : String)
  deriving Repr, DecidableEq

namespace Argument

/-- The text before the first equals sign, and the text behind it if there is one. -/
def splitEquals (text : List Char) : List Char × Option String :=
  match text.span (· ≠ '=') with
  | (before, _ :: after) => (before, some (String.ofList after))
  | (before, []) => (before, none)

/-- The text is a decimal number without a sign; a line feed may follow it. -/
def isUnsignedNumber (text : List Char) : Bool :=
  let text := if text.getLast? = some '\n' then text.dropLast else text
  let (whole, rest) := text.span Text.isDecimal
  match rest with
  | [] => !whole.isEmpty
  | '.' :: fraction => !fraction.isEmpty && fraction.all Text.isDecimal
  | _ => false

/-- An argument with a dash in front that fits no switch. -/
def ofUnfitting (text : String) : Argument :=
  if isUnsignedNumber (text.toList.drop 1) || text.toList.contains ' ' then operand text
  else unknown text

/-- What one argument other than two dashes stands for. -/
def ofText (text : String) : Except UsageError Argument :=
  match text.toList with
  | '-' :: '-' :: _ =>
    let (start, value) := splitEquals text.toList
    match Switch.fitting start with
    | [] => .ok (ofUnfitting text)
    | [switch] => .ok (long switch value)
    | candidates => .error (.ambiguous text candidates)
  | '-' :: c :: rest =>
    match Switch.ofLetter? c, rest with
    | some switch, '=' :: value => .ok (short switch true value)
    | some switch, rest => .ok (short switch false rest)
    | none, _ => .ok (ofUnfitting text)
  | _ => .ok (operand text)

/-- What the arguments of a command line stand for. -/
def ofTexts : List String → Except UsageError (List Argument)
  | [] => .ok []
  | text :: rest =>
    if text = "--" then .ok (divider :: rest.map operand)
    else do
      let argument ← ofText text
      return argument :: (← ofTexts rest)

end Argument

end BundleSize
