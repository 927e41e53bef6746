import BundleSize.Json.Writer
import BundleSize.SourceMap.Table
import BundleSize.Text.Quoted

/-!
# Summaries of mapping tables

What is reported when a table has been built: the number of its mappings,
and how many of them belong to the selected source. Sources have names, but
a document may hold any value in the place of one, and the value is shown.
-/

namespace BundleSize

mutual

/-- A value as diagnostics show it. -/
def Json.display : Json → String
  | .null => "None"
  | .bool true => "True"
  | .bool false => "False"
  | .string s => Text.quoted s
  | .array xs => "[" ++ displayItems xs ++ "]"
  | .object members => "\x7b" ++ displayMembers members ++ "\x7d"
  | .int n => toString n
  | value => value.write

def displayItems : List Json → String
  | [] => ""
  | [x] => x.display
  | x :: xs => x.display ++ ", " ++ displayItems xs

def displayMembers : List (String × Json) → String
  | [] => ""
  | [(name, x)] => Text.quoted name ++ ": " ++ x.display
  | (name, x) :: xs => Text.quoted name ++ ": " ++ x.display ++ ", " ++ displayMembers xs

end

/-- What is reported of a table with so many mappings, some of them of the selected source. -/
def tableSummary (size ofSource : Nat) (source : Option Label) : String :=
  "Built mapping table with " ++ toString size ++ " mappings (" ++ toString ofSource
    ++ " for source " ++ ((source.getD .null).display) ++ ")"

/-- What is reported when a table has been built. -/
def PositionTable.summary (t : PositionTable) : String :=
  tableSummary t.size t.bySource.size t.source

/-- What is reported when the table of a document has been built. -/
def DocumentTable.summary : DocumentTable → String
  | whole table => table.summary
  | fractional placed source =>
    tableSummary placed.length
      (placed.countP fun m => m.source.isSome && m.source == source) source

end BundleSize
