import BundleSize.Inspection

/-!
# The size tool

The tool answers queries about files. A query names a file and says whether
it is minified first, which names are of interest and how many entries the
answer may have. An answer is a JSON object: the report with the query's
file, or what went wrong. Whether there is a file is asked before anything is
provided for, so that a file that cannot even be looked at leaves the tool
without an answer.
-/

namespace BundleSize

/-- What the tool is asked. -/
structure SizeQuery where
  file : String
  minify : Bool := false
  marker : Option String := none
  pattern : Option String := none
  limit : Option Int := some 50
  deriving Repr, DecidableEq

/-- What the tool answers. -/
inductive SizeAnswer where
  | measured (file : String) (minified : Bool) (members : List (String × Json))
  /-- The query was not looked into. -/
  | declined (reason : String)
  | failed (error : AnalysisError)
  /-- There is no answer: the file could not be looked at. -/
  | brokenOff (error : FileError)
  deriving Repr

/-- The object form of an answer. -/
def SizeAnswer.toJson : SizeAnswer → Json
  | measured file minified members =>
    .object
      ([("success", .bool true), ("file_path", .string file), ("minified", .bool minified)]
        ++ members)
  | declined reason => .object [("success", .bool false), ("error", .string reason)]
  | failed error =>
    .object
      [("success", .bool false), ("error", .string error.message),
        ("error_type", .string error.kind)]
  | brokenOff _ => .null

/-- A tool with its minifier. -/
structure SizeTool where
  minifier : Minifier := {}
  strict : Bool := false

namespace SizeTool

/-- The members of the report that a query asks for. -/
def members [SyntaxParser] [PatternEngine] (t : SizeTool) (q : SizeQuery) :
    Run (List (String × Json)) := do
  Run.note .info ("Analyzing bundle size of: " ++ q.file)
  let filter ← Run.ofExcept ((NameFilter.ofTexts q.marker q.pattern).mapError .pattern)
  let report ← analyse q.file (if q.minify then some t.minifier else none)
    { filter, strict := t.strict }
  match report.toRecords .debug q.limit with
  | .ok records => modify fun w => w.report records
  | .error e =>
    modify fun w => w.report (report.entryRecords .debug q.limit)
    throw (.percentage e)
  Run.ofExcept ((report.members q.limit).mapError .percentage)

/-- The record of a failed query. -/
def failureRecord (q : SizeQuery) (e : AnalysisError) : Record :=
  ⟨.error,
    (if e.expected then "Error" else "Unexpected error") ++ " analyzing " ++ q.file ++ ": "
      ++ e.message⟩

/-- Answers a query. -/
def answer [SyntaxParser] [PatternEngine] (t : SizeTool) (q : SizeQuery) :
    StateM Workspace SizeAnswer := do
  match (← get).files.isFile (Path.ofText q.file) with
  | .error e => return .brokenOff e
  | .ok false => return .declined ("File not found: " ++ q.file)
  | .ok true =>
    match ← (t.members q).run with
    | .ok members => return .measured q.file q.minify members
    | .error e =>
      modify fun w => w.report [failureRecord q e]
      return .failed e

end SizeTool

end BundleSize
