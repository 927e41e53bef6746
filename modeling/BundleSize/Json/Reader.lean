import BundleSize.Json.Value
import BundleSize.Text.Encoding
import BundleSize.Text.Integer

/-!
# Reading JSON

A document is one value with blanks around it. The reader goes from left to
right and stops at the first place where the text cannot be continued; the
error names that place by line, column and offset. A text that ends early
is an error at its end, except that an unfinished string is an error at its
opening quote.
-/

namespace BundleSize.Json

/-- What was found, or missing, at the place of an error. -/
inductive Fault where
  | value
  | name
  | colon
  | comma
  | unterminatedString
  | controlCharacter
  | escape
  | codeEscape
  | extraData
  | byteOrderMark
  deriving Repr, DecidableEq

def Fault.message : Fault → String
  | .value => "Expecting value"
  | .name => "Expecting property name enclosed in double quotes"
  | .colon => "Expecting ':' delimiter"
  | .comma => "Expecting ',' delimiter"
  | .unterminatedString => "Unterminated string starting at"
  | .controlCharacter => "Invalid control character at"
  | .escape => "Invalid \\escape"
  | .codeEscape => "Invalid \\uXXXX escape"
  | .extraData => "Extra data"
  | .byteOrderMark => "Unexpected UTF-8 BOM (decode using utf-8-sig)"

/-- Why a document cannot be read. -/
inductive ReadError where
  /-- A fault at a place: its line and column, counted from one, and its offset. -/
  | syntactic (fault : Fault) (line column offset : Nat)
  | number (error : Text.IntegerError)
  | undecodable (error : Text.DecodingError)
  deriving Repr, DecidableEq

def ReadError.message : ReadError → String
  | .syntactic fault line column offset =>
    fault.message ++ ": line " ++ toString line ++ " column " ++ toString column
      ++ " (char " ++ toString offset ++ ")"
  | .number error => error.message
  | .undecodable error => error.message

/-- The line and column of an offset, both counted from one. -/
def place (text : List Char) (offset : Nat) : Nat × Nat :=
  let before := text.take offset
  (before.count '\n' + 1, (before.reverse.takeWhile (· ≠ '\n')).length + 1)

/-- The error of a fault at an offset of the text. -/
def faultAt (text : List Char) (fault : Fault) (offset : Nat) : ReadError :=
  let (line, column) := place text offset
  .syntactic fault line column offset

/-- What is still to be read, and its offset. -/
structure Cursor where
  rest : List Char
  offset : Nat

/-- Why reading stopped: a fault at an offset, or a number that is too long. -/
inductive Stop where
  | fault (fault : Fault) (offset : Nat)
  | number (error : Text.IntegerError)

namespace Cursor

/-- Passes over `n` characters. -/
def skip (c : Cursor) (n : Nat) : Cursor := ⟨c.rest.drop n, c.offset + n⟩

/-- A character that JSON lets stand between tokens. -/
def isSpace (c : Char) : Bool := c == ' ' || c == '\t' || c == '\n' || c == '\r'

/-- Passes over blanks. -/
def skipSpace (c : Cursor) : Cursor := c.skip (c.rest.takeWhile isSpace).length

/-- The cursor's text begins with `word`. -/
def startsWith (c : Cursor) (word : String) : Bool := word.toList.isPrefixOf c.rest

end Cursor

/-- Four hexadecimal digits, and the text after them. -/
def fourHex? : List Char → Option (Nat × List Char)
  | a :: b :: c :: d :: rest => do
    let a ← Text.hexValue? a
    let b ← Text.hexValue? b
    let c ← Text.hexValue? c
    let d ← Text.hexValue? d
    return (((a * 16 + b) * 16 + c) * 16 + d, rest)
  | _ => none

/-- The character that a short escape stands for. -/
def shortEscape? : Char → Option Char
  | '"' => some '"'
  | '\\' => some '\\'
  | '/' => some '/'
  | 'b' => some '\x08'
  | 'f' => some '\x0c'
  | 'n' => some '\n'
  | 'r' => some '\r'
  | 't' => some '\t'
  | _ => none

/-- The second half of a surrogate pair, when an escaped one follows and more text after it. -/
def lowHalf? (rest : List Char) (offset : Nat) : Except Stop (Option (Nat × List Char)) :=
  match rest with
  | '\\' :: 'u' :: digits =>
    if digits.length < 5 then .ok none
    else
      match fourHex? digits with
      | none => .error (.fault .codeEscape (offset + 1))
      | some (low, after) =>
        .ok (if 0xdc00 ≤ low ∧ low < 0xe000 then some (low, after) else none)
  | _ => .ok none

/-- The rest of a string whose opening quote stands at `opening`. -/
def stringBody (opening : Nat) : (fuel : Nat) → Cursor → List Char →
    Except Stop (String × Cursor)
  | 0, _, _ => .error (.fault .unterminatedString opening)
  | fuel + 1, ⟨rest, offset⟩, done =>
    match rest with
    | [] => .error (.fault .unterminatedString opening)
    | '"' :: rest => .ok (String.ofList done.reverse, ⟨rest, offset + 1⟩)
    | ['\\'] => .error (.fault .unterminatedString opening)
    | '\\' :: 'u' :: rest =>
      match fourHex? rest with
      | none => .error (.fault .codeEscape (offset + 1))
      | some (_, []) => .error (.fault .codeEscape (offset + 1))
      | some (code, after) =>
        if 0xd800 ≤ code ∧ code < 0xdc00 then do
          match ← lowHalf? after (offset + 6) with
          | some (low, rest) =>
            let c := Text.scalar (0x10000 + (code - 0xd800) * 1024 + (low - 0xdc00))
            stringBody opening fuel ⟨rest, offset + 12⟩ (c :: done)
          | none => stringBody opening fuel ⟨after, offset + 6⟩ (Text.replacement :: done)
        else stringBody opening fuel ⟨after, offset + 6⟩ (Text.scalar code :: done)
    | '\\' :: c :: rest =>
      match shortEscape? c with
      | none => .error (.fault .escape offset)
      | some c => stringBody opening fuel ⟨rest, offset + 2⟩ (c :: done)
    | c :: rest =>
      if c.toNat < 0x20 then .error (.fault .controlCharacter offset)
      else stringBody opening fuel ⟨rest, offset + 1⟩ (c :: done)

/-- A string, from its opening quote on. -/
def stringAt (c : Cursor) : Except Stop (String × Cursor) :=
  stringBody c.offset (c.rest.length + 1) (c.skip 1) []

/-- The fraction digits after a point, when there are any. -/
def fractionDigits : List Char → List Char
  | '.' :: rest => rest.takeWhile Char.isDigit
  | _ => []

/-- The exponent and the length of its written form, when there is one. -/
def exponentPart? : List Char → Option (Int × Nat)
  | e :: rest =>
    if e = 'e' ∨ e = 'E' then
      let (negative, signs, body) :=
        match rest with
        | '-' :: body => (true, 1, body)
        | '+' :: body => (false, 1, body)
        | body => (false, 0, body)
      let digits := body.takeWhile Char.isDigit
      if digits.isEmpty then none
      else
        let n : Int := Text.ofDigits (digits.map fun d => d.toNat - '0'.toNat)
        some (if negative then -n else n, 1 + signs + digits.length)
    else none
  | [] => none

/-- A number: a whole part without superfluous zeros, then a fraction and an exponent if digits
follow the marks that announce them. -/
def numberAt (c : Cursor) : Except Stop (Json × Cursor) :=
  let negative := c.rest.head? = some '-'
  let start := if negative then c.skip 1 else c
  let whole :=
    if start.rest.head? = some '0' then ['0'] else start.rest.takeWhile Char.isDigit
  if whole.isEmpty then .error (.fault .value c.offset)
  else
    let afterWhole := start.skip whole.length
    let fraction := fractionDigits afterWhole.rest
    let afterFraction :=
      if fraction.isEmpty then afterWhole else afterWhole.skip (fraction.length + 1)
    let sign : Int := if negative then -1 else 1
    let value (digits : List Char) : Int :=
      sign * Text.ofDigits (digits.map fun d => d.toNat - '0'.toNat)
    match exponentPart? afterFraction.rest with
    | some (exponent, length) =>
      .ok (.decimal (value (whole ++ fraction)) (exponent - fraction.length),
        afterFraction.skip length)
    | none =>
      if fraction.isEmpty then
        if Text.maxDigits < whole.length then .error (.number (.tooLong whole.length))
        else .ok (.int (value whole), afterFraction)
      else .ok (.decimal (value (whole ++ fraction)) (-fraction.length), afterFraction)

/-- A value that is neither string, array nor object. -/
def scalarAt (c : Cursor) : Except Stop (Json × Cursor) :=
  if c.startsWith "null" then .ok (.null, c.skip 4)
  else if c.startsWith "true" then .ok (.bool true, c.skip 4)
  else if c.startsWith "false" then .ok (.bool false, c.skip 5)
  else if c.startsWith "NaN" then .ok (.nonFinite "NaN", c.skip 3)
  else if c.startsWith "Infinity" then .ok (.nonFinite "Infinity", c.skip 8)
  else if c.startsWith "-Infinity" then .ok (.nonFinite "-Infinity", c.skip 9)
  else numberAt c

mutual

/-- A value, without blanks before it. -/
def valueAt : (fuel : Nat) → Cursor → Except Stop (Json × Cursor)
  | 0, c => .error (.fault .value c.offset)
  | fuel + 1, c =>
    match c.rest with
    | '"' :: _ => (stringAt c).map fun (s, c) => (.string s, c)
    | '{' :: _ =>
      let inside := (c.skip 1).skipSpace
      if inside.rest.head? = some '}' then .ok (.object [], inside.skip 1)
      else membersAt fuel inside []
    | '[' :: _ =>
      let inside := (c.skip 1).skipSpace
      if inside.rest.head? = some ']' then .ok (.array [], inside.skip 1)
      else itemsAt fuel inside []
    | _ => scalarAt c

/-- The members of an object from the next name on, `done` being those before it. -/
def membersAt : (fuel : Nat) → Cursor → List (String × Json) → Except Stop (Json × Cursor)
  | 0, c, _ => .error (.fault .value c.offset)
  | fuel + 1, c, done =>
    if c.rest.head? ≠ some '"' then .error (.fault .name c.offset)
    else do
      let (name, afterName) ← stringAt c
      let colon := afterName.skipSpace
      if colon.rest.head? ≠ some ':' then .error (.fault .colon colon.offset)
      let (value, afterValue) ← valueAt fuel (colon.skip 1).skipSpace
      let done := setMember name value done
      let next := afterValue.skipSpace
      match next.rest with
      | '}' :: _ => return (.object done, next.skip 1)
      | ',' :: _ => membersAt fuel (next.skip 1).skipSpace done
      | _ => .error (.fault .comma next.offset)

/-- The items of an array from the next one on, `done` being those before it, latest first. -/
def itemsAt : (fuel : Nat) → Cursor → List Json → Except Stop (Json × Cursor)
  | 0, c, _ => .error (.fault .value c.offset)
  | fuel + 1, c, done => do
    let (value, afterValue) ← valueAt fuel c
    let next := afterValue.skipSpace
    match next.rest with
    | ']' :: _ => return (.array (value :: done).reverse, next.skip 1)
    | ',' :: _ => itemsAt fuel (next.skip 1).skipSpace (value :: done)
    | _ => .error (.fault .comma next.offset)

end

/-- Reads a document from its characters. -/
def readChars (text : List Char) : Except ReadError Json :=
  let start : Cursor := (Cursor.mk text 0).skipSpace
  let outcome := do
    let (value, after) ← valueAt (2 * text.length + 2) start
    let after := after.skipSpace
    if after.rest.isEmpty then .ok value else .error (.fault .extraData after.offset)
  match outcome with
  | .ok value => .ok value
  | .error (.fault fault offset) => .error (faultAt text fault offset)
  | .error (.number error) => .error (.number error)

/-- Reads a document. A byte order mark in front of it is refused. -/
def read (text : String) : Except ReadError Json :=
  let chars := text.toList
  if chars.head? = some '\ufeff' then .error (faultAt chars .byteOrderMark 0) else readChars chars

/-- Reads a document given as bytes. -/
def readBytes (bytes : Text.Bytes) : Except ReadError Json :=
  match Text.decodeDocument bytes with
  | .error error => .error (.undecodable error)
  | .ok chars => readChars chars

end BundleSize.Json
