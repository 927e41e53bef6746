import BundleSize.Text.Character
import BundleSize.Text.Printable

/-!
# Quoted text in messages

A message shows a text between quotes, on one line and in printable
characters only. Single quotes are used unless the text holds a single
quote and no double quote. The chosen quote and the backslash are escaped;
tab, line feed and carriage return have short escapes; any other
unprintable character is written by its code point in two, four or eight
hexadecimal digits.
-/

namespace BundleSize.Text

/-- The escape of an unprintable character: the shortest of the three widths that holds it. -/
def codeEscape (c : Char) : List Char :=
  let n := c.toNat
  if n ≤ 0xff then '\\' :: 'x' :: hexDigits 2 n
  else if n ≤ 0xffff then '\\' :: 'u' :: hexDigits 4 n
  else '\\' :: 'U' :: hexDigits 8 n

/-- One character as it stands between the quotes `quote`. -/
def quoteChar (quote c : Char) : List Char :=
  if c = quote ∨ c = '\\' then ['\\', c]
  else if c = '\t' then ['\\', 't']
  else if c = '\n' then ['\\', 'n']
  else if c = '\r' then ['\\', 'r']
  else if isPrintable c then [c]
  else codeEscape c

/-- The quote that needs the fewer escapes; the single quote when neither does better. -/
def quoteFor (s : String) : Char :=
  if s.toList.contains '\'' && !s.toList.contains '"' then '"' else '\''

/-- A text between quotes, as messages show it. -/
def quoted (s : String) : String :=
  let quote := quoteFor s
  String.ofList (quote :: s.toList.flatMap (quoteChar quote) ++ [quote])

example : quoted "it's" = "\"it's\"" := by decide +kernel
example : quoted "a\n'\"\\" = "'a\\n\\'\"\\\\'" := by decide +kernel

end BundleSize.Text
