import BundleSize.SizeTool

/-!
# The server

A server holds a tool once it has been initialised, and answers queries
with it. Records lighter than its threshold are dropped as they come; the
threshold is that of the settings as soon as the server has been started as
a whole.

Initialising replaces the tool at the very end, so that a server that could
not be initialised again goes on with the tool it has.
-/

namespace BundleSize

/-- How a server that was started comes to its end. -/
inductive Shutdown where
  | closed
  | interrupted
  | crashed (reason : String)
  deriving Repr, DecidableEq

/-- Why a server does not do what it is asked. -/
inductive ServerError where
  | settings (error : SettingsError)
  | crashed (reason : String)
  deriving Repr, DecidableEq

/-- The state of a server. -/
structure Server where
  environment : Variables
  workspace : Workspace
  tool : Option SizeTool := none
  threshold : Threshold := .info

namespace Server

/-- What a server does; what it did before it failed stays done. -/
abbrev Action := ExceptT ServerError (StateM Server)

/-- Appends a record, unless it is too light. -/
def note (level : Level) (message : String) : Action Unit :=
  modify fun s =>
    { s with workspace := s.workspace.report ([⟨level, message⟩].filter s.threshold.shows) }

/-- The value of a computation on settings. -/
def ofSettings (result : Except SettingsError α) : Action α :=
  ExceptT.mk (pure (result.mapError .settings))

/-- Makes the tool that the settings describe. -/
def setUp : Action SizeTool := do
  let settings ← ofSettings (Settings.read (← get).environment)
  note .info "Initializing elmjs-inspector..."
  note .info
    ("Terser: " ++ settings.minifierCommand ++ " (passes: " ++ toString settings.passes
      ++ ", aggressiveness: " ++ settings.aggressiveness ++ ", preserve names: "
      ++ (if settings.preserveNames then "True" else "False") ++ ")")
  let minifier ← ofSettings settings.minifier
  let tool : SizeTool := { minifier, strict := settings.strictRanges }
  modify fun s => { s with tool := some tool }
  note .info "All components initialized successfully!"
  return tool

/-- Answers a query. -/
def answer [SyntaxParser] [PatternEngine] (q : SizeQuery) : StateM Server SizeAnswer := do
  let s ← get
  match s.tool with
  | none => return .declined "Server not initialized"
  | some tool =>
    let earlier := s.workspace.journal
    let (a, after) := (tool.answer q).run { s.workspace with journal := [] }
    set { s with
      workspace := { after with journal := earlier ++ after.journal.filter s.threshold.shows } }
    return a

/-- Starts the server as a whole and runs it to its end. -/
def serve (shutdown : Shutdown) : Action Threshold := do
  let settings ← ofSettings (Settings.read (← get).environment)
  let threshold ← ofSettings (thresholdOf settings.logLevel)
  modify fun s => { s with threshold }
  note .info "Starting elmjs-inspector MCP Server..."
  let _ ← setUp
  note .info "Server ready!"
  match shutdown with
  | .closed => return threshold
  | .interrupted =>
    note .info "Server interrupted"
    return threshold
  | .crashed reason =>
    note .error ("Server error: " ++ reason)
    throw (.crashed reason)

end Server

end BundleSize
