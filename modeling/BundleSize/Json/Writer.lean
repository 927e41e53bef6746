import BundleSize.Json.Value
import BundleSize.Text.Integer

/-!
# Writing JSON

A value is written on one line in ASCII: a comma or a colon is followed by
one space, and a character beyond ASCII is written as the escapes of its
UTF-16 units. A value that holds a whole number with too many digits cannot
be written.
-/

namespace BundleSize.Json

/-- The escape of one UTF-16 unit. -/
def unitEscape (unit : Nat) : List Char := '\\' :: 'u' :: Text.hexDigits 4 unit

/-- One character as it stands in a written string. -/
def writeChar (c : Char) : List Char :=
  match c with
  | '"' => ['\\', '"']
  | '\\' => ['\\', '\\']
  | '\n' => ['\\', 'n']
  | '\r' => ['\\', 'r']
  | '\t' => ['\\', 't']
  | '\x0c' => ['\\', 'f']
  | '\x08' => ['\\', 'b']
  | c =>
    let n := c.toNat
    if 0x20 ≤ n ∧ n ≤ 0x7e then [c]
    else if n < 0x10000 then unitEscape n
    else unitEscape (0xd800 + (n - 0x10000) / 1024) ++ unitEscape (0xdc00 + (n - 0x10000) % 1024)

/-- A string between its quotes. -/
def writeString (s : String) : String :=
  String.ofList ('"' :: s.toList.flatMap writeChar ++ ['"'])

/-- A decimal with its exponent. -/
def writeDecimal (digits exponent : Int) : String := toString digits ++ "e" ++ toString exponent

mutual

/-- A value on one line. -/
def write : Json → String
  | null => "null"
  | bool b => if b then "true" else "false"
  | int n => toString n
  | decimal digits exponent => writeDecimal digits exponent
  | nonFinite text => text
  | string s => writeString s
  | array items => "[" ++ ", ".intercalate (writeItems items) ++ "]"
  | object members => "\x7b" ++ ", ".intercalate (writeMembers members) ++ "\x7d"

def writeItems : List Json → List String
  | [] => []
  | item :: items => write item :: writeItems items

def writeMembers : List (String × Json) → List String
  | [] => []
  | (name, value) :: members =>
    (writeString name ++ ": " ++ write value) :: writeMembers members

end

mutual

/-- No whole number in the value has more digits than can be written. -/
def isWritable : Json → Bool
  | int n => Text.isWritable n
  | array items => areWritable items
  | object members => membersAreWritable members
  | _ => true

def areWritable : List Json → Bool
  | [] => true
  | item :: items => isWritable item && areWritable items

def membersAreWritable : List (String × Json) → Bool
  | [] => true
  | (_, value) :: members => isWritable value && membersAreWritable members

end

end BundleSize.Json
