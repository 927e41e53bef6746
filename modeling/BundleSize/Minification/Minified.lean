import BundleSize.SourceMap.Summary
import BundleSize.Text.Character
import BundleSize.Workspace

/-!
# Minified programs

The minifier's program reads a text and leaves code and a source map. What
it leaves is accepted only if it ended well and left both; the code loses
the comment that names the map, and the map becomes a table. If the options
say so, the code is then written to a file. So a failure of the program, or
of reading what it left, writes nothing.

The comment that names the map runs from its opening to the end of the text:
an address without blanks, then blanks only. It is dropped, with a line feed
in front of it, so that offsets before it keep their meaning.
-/

namespace BundleSize

/-! ## The comment that names a source map -/

namespace Minification

/-- How the comment begins. -/
def mapCommentOpening : List Char := "//# sourceMappingURL=".toList

/-- The whole text is such a comment. -/
def isMapComment (text : List Char) : Bool :=
  mapCommentOpening.isPrefixOf text &&
    ((text.drop mapCommentOpening.length).dropWhile fun c => !Text.isBlank c).all Text.isBlank

/-- The text is such a comment, or a line feed and one. -/
def endsInMapComment : List Char → Bool
  | '\n' :: rest => isMapComment rest
  | text => isMapComment text

/-- The text without the longest such comment at its end. -/
def dropMapComment : List Char → List Char
  | [] => []
  | c :: rest => if endsInMapComment (c :: rest) then [] else c :: dropMapComment rest

end Minification

/-! ## What the program leaves -/

/-- Minified code with the table that leads to it. -/
structure Minified where
  code : String
  table : DocumentTable

/-- The text without blanks around it. -/
def readDiagnostics (bytes : Text.Bytes) : String :=
  Text.strip (String.ofList (Text.Utf8.decodeLossy bytes))

namespace Completion

/-- The code and the map that the program left, as bytes. -/
def yield (c : Completion) : Except MinifierFailure (Text.Bytes × Text.Bytes) :=
  if c.status ≠ 0 then .error (.exited c.status (readDiagnostics c.diagnostics))
  else
    match c.code, c.map with
    | none, _ => .error .noCode
    | some _, none => .error .noMap
    | some code, some map => .ok (code, map)

/-- The code and the table that the program left. -/
def minified (c : Completion) : Except AnalysisError Minified := do
  let (code, map) ← c.yield.mapError .minifier
  let code ← (TextFile.decode code).mapError .decoding
  let map ← (TextFile.decode map).mapError .decoding
  let table ← (DocumentTable.ofText map none).mapError .map
  return { code := String.ofList (Minification.dropMapComment code.toList), table }

end Completion

namespace Minifier

/-- What the program is started with. -/
def start (m : Minifier) (scratch text : String) : Start :=
  { arguments :=
      m.command ++ [scratch ++ "/input.js"] ++ m.options.arguments ++ ["-o", scratch ++ "/output.js"]
    input := text }

/-- The failure of a start that was refused. -/
def refusal (m : Minifier) : Refusal → MinifierFailure
  | .invalid reason => .invalidStart reason
  | .system reason =>
    match m.command with
    | program :: _ => .notStarted program reason
    | [] => .noProgram

/-- Starts the program and waits for its end. -/
def complete (m : Minifier) (text : String) : Run Completion := do
  if !Text.isWritable m.options.passes then throw (.minifier .unwritablePasses)
  let start := m.start (← get).nextScratch text
  Run.note .debug ("Executing: " ++ " ".intercalate start.arguments)
  match ← Run.start start with
  | .refused reason => throw (.minifier (m.refusal reason))
  | .completed completion => return completion

/-- Keeps the code where the options say. -/
def keep (m : Minifier) (code : String) : Run Unit := do
  match m.options.outputPath with
  | none => return
  | some path =>
    Run.writeText path code
    Run.note .info ("Wrote minified code to " ++ path.toText)

/-- Minifies a text. -/
def minify (m : Minifier) (text : String) : Run Minified := do
  Run.note .info "Running terser"
  let minified ← Run.ofExcept (← m.complete text).minified
  Run.note .debug minified.table.summary
  m.keep minified.code
  Run.note .info
    ("Minified " ++ toString text.length ++ " characters to " ++ toString minified.code.length
      ++ " (" ++ toString minified.table.size ++ " mappings)")
  return minified

end Minifier

end BundleSize
