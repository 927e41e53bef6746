import BundleSize.Inspection
import BundleSize.Proofs.Reports

/-!
# What a run comes to

A run keeps records and lists the starts of the minifier's program. The records decide
nothing, and the starts nothing but the name of the next scratch directory. So what a
run comes to, and what it leaves in the files, depends on the files it finds, on the
program and on that directory. An effect says just that, and `Run.HasEffectIn` that a
run has an effect, one lemma for each function; `Run.HasEffect` is for runs that start
nothing. Effects compose as runs do (`Run.HasEffectAt.bind`), as long as no more than
one step is a start.

The effect of an analysis (`analysisEffect`) reads one file and writes at most one.
-/

namespace BundleSize

/-- What a run comes to and what it leaves in the files. -/
abbrev Effect := ExceptT AnalysisError (StateM FileTree)

namespace Effect

/-- The result and the files that it is left with. -/
def on (effect : Effect α) (files : FileTree) : Except AnalysisError α × FileTree :=
  (ExceptT.run effect).run files

def ofExcept (result : Except AnalysisError α) : Effect α := ExceptT.mk (pure result)

end Effect

def FileTree.readText (t : FileTree) (p : Path) : Except AnalysisError String := do
  let bytes ← (t.read p).mapError .file
  (TextFile.decode bytes).mapError .decoding

namespace Effect

def readText (p : Path) : Effect String := fun files => (files.readText p, files)

def writeText (p : Path) (text : String) : Effect Unit := fun files =>
  match files.write p (TextFile.encode text) with
  | .ok files => (.ok (), files)
  | .error e => (.error (.file e), files)

@[simp] theorem on_pure (a : α) (files : FileTree) :
    (pure a : Effect α).on files = (.ok a, files) :=
  rfl

@[simp] theorem on_ofExcept (result : Except AnalysisError α) (files : FileTree) :
    (ofExcept result).on files = (result, files) :=
  rfl

@[simp] theorem on_readText (p : Path) (files : FileTree) :
    (readText p).on files = (files.readText p, files) :=
  rfl

theorem on_writeText (p : Path) (text : String) (files : FileTree) :
    (writeText p text).on files
      = match files.write p (TextFile.encode text) with
        | .ok files => (.ok (), files)
        | .error e => (.error (.file e), files) :=
  rfl

theorem on_bind (effect : Effect α) (next : α → Effect β) (files : FileTree) :
    (effect >>= next).on files
      = match effect.on files with
        | (.ok a, later) => (next a).on later
        | (.error e, later) => (.error e, later) := by
  simp only [on, run_bind]
  generalize (ExceptT.run effect).run files = first
  obtain ⟨outcome, later⟩ := first
  cases outcome <;> rfl

theorem ofExcept_bind (result : Except AnalysisError α) (next : α → Except AnalysisError β) :
    ofExcept (result >>= next) = ofExcept result >>= fun a => ofExcept (next a) := by
  cases result <;> rfl

end Effect

/-! ## Effects of runs -/

/-- A later state of a workspace in which the files are the given ones. -/
structure Workspace.Becomes (w : Workspace) (files : FileTree) (w' : Workspace) : Prop where
  files_eq : w'.files = files
  launch_eq : w'.launch = w.launch
  scratch_eq : w'.scratch = w.scratch
  suffix_eq : w'.suffix = w.suffix
  attempts : w.attempts <+: w'.attempts
  journal : w.journal <+: w'.journal

namespace Workspace.Becomes

variable {w w' w'' : Workspace} {files files' : FileTree}

theorem refl (w : Workspace) : w.Becomes w.files w :=
  ⟨rfl, rfl, rfl, rfl, List.prefix_rfl, List.prefix_rfl⟩

theorem trans (h : w.Becomes files w') (h' : w'.Becomes files' w'') : w.Becomes files' w'' where
  files_eq := h'.files_eq
  launch_eq := h'.launch_eq.trans h.launch_eq
  scratch_eq := h'.scratch_eq.trans h.scratch_eq
  suffix_eq := h'.suffix_eq.trans h.suffix_eq
  attempts := h.attempts.trans h'.attempts
  journal := h.journal.trans h'.journal

theorem report (w : Workspace) (records : List Record) : w.Becomes w.files (w.report records) :=
  ⟨rfl, rfl, rfl, rfl, List.prefix_rfl, List.prefix_append _ _⟩

/-- As long as nothing is started, the next start keeps its directory. -/
theorem nextScratch_eq (h : w.Becomes files w') (hattempts : w'.attempts = w.attempts) :
    w'.nextScratch = w.nextScratch := by
  simp only [Workspace.nextScratch, h.scratch_eq, h.suffix_eq, hattempts]

end Workspace.Becomes

namespace Run

variable {w : Workspace} {launch : Start → Launch} {scratch : String}

/-- In a workspace, the run comes to what the effect says and leaves the files that it says. -/
def HasEffectAt (w : Workspace) (action : Run α) (effect : Effect α) : Prop :=
  ((ExceptT.run action).run w).1 = (effect.on w.files).1
    ∧ w.Becomes (effect.on w.files).2 ((ExceptT.run action).run w).2

/-- The run has the effect in every workspace, and it starts no program. -/
def HasEffect (action : Run α) (effect : Effect α) : Prop :=
  ∀ w : Workspace,
    HasEffectAt w action effect ∧ ((ExceptT.run action).run w).2.attempts = w.attempts

/-- The run has the effect in every workspace with the given program, if the directory of the next
start is the given one. -/
def HasEffectIn (launch : Start → Launch) (scratch : String) (action : Run α)
    (effect : Effect α) : Prop :=
  ∀ w : Workspace, w.launch = launch → w.nextScratch = scratch → HasEffectAt w action effect

theorem run_get (w : Workspace) : (ExceptT.run (get : Run Workspace)).run w = (.ok w, w) := rfl

theorem run_ofExcept (result : Except AnalysisError α) (w : Workspace) :
    (ExceptT.run (ofExcept result)).run w = (result, w) :=
  rfl

/-! ### Single steps -/

theorem hasEffect_pure (a : α) : HasEffect (pure a) (pure a) :=
  fun w => ⟨⟨rfl, .refl w⟩, rfl⟩

theorem hasEffect_ofExcept (result : Except AnalysisError α) :
    HasEffect (ofExcept result) (Effect.ofExcept result) :=
  fun w => ⟨⟨rfl, .refl w⟩, rfl⟩

theorem hasEffect_report (records : List Record) :
    HasEffect (modify fun w => w.report records) (pure ()) :=
  fun w => ⟨⟨rfl, .report w records⟩, rfl⟩

theorem hasEffect_note (level : Level) (message : String) :
    HasEffect (note level message) (pure ()) :=
  hasEffect_report _

theorem hasEffect_readText (p : Path) : HasEffect (readText p) (Effect.readText p) := by
  intro w
  have hrun : (ExceptT.run (readText p)).run w = (w.files.readText p, w) := by
    simp only [readText, run_bind, run_get, run_ofExcept, FileTree.readText]
    cases w.files.read p <;> rfl
  rw [HasEffectAt, hrun]
  exact ⟨⟨rfl, .refl w⟩, rfl⟩

theorem hasEffect_writeText (p : Path) (text : String) :
    HasEffect (writeText p text) (Effect.writeText p text) := by
  intro w
  simp only [HasEffectAt, writeText, run_bind, run_get, run_ofExcept, Effect.on_writeText]
  cases w.files.write p (TextFile.encode text) with
  | error e => exact ⟨⟨rfl, .refl w⟩, rfl⟩
  | ok files => exact ⟨⟨rfl, rfl, rfl, rfl, rfl, List.prefix_rfl, List.prefix_rfl⟩, rfl⟩

theorem hasEffectIn_start (launch : Start → Launch) (scratch : String) (s : Start) :
    HasEffectIn launch scratch (start s) (pure (launch s)) := by
  intro w hlaunch _
  obtain rfl := hlaunch
  exact ⟨rfl, rfl, rfl, rfl, rfl, List.prefix_append _ _, List.prefix_rfl⟩

/-! ### One step after the other -/

section Bind

variable {action : Run α} {effect : Effect α} {next : α → Run β} {nextEffect : α → Effect β}

/-- The next step meets the workspace that the first one leaves. -/
theorem HasEffectAt.bind (h : HasEffectAt w action effect)
    (hnext : ∀ a, HasEffectAt ((ExceptT.run action).run w).2 (next a) (nextEffect a)) :
    HasEffectAt w (action >>= next) (effect >>= nextEffect) := by
  obtain ⟨hresult, hlater⟩ := h
  rw [HasEffectAt, run_bind, Effect.on_bind]
  generalize (ExceptT.run action).run w = first at hresult hlater hnext
  obtain ⟨outcome, later⟩ := first
  generalize effect.on w.files = second at hresult hlater
  obtain ⟨result, files⟩ := second
  obtain rfl : outcome = result := hresult
  obtain rfl : later.files = files := hlater.files_eq
  cases outcome with
  | error e => exact ⟨rfl, hlater⟩
  | ok a =>
      obtain ⟨hsame, hlast⟩ := hnext a
      exact ⟨hsame, hlater.trans hlast⟩

theorem HasEffect.within (h : HasEffect action effect) : HasEffectIn launch scratch action effect :=
  fun w _ _ => (h w).1

theorem HasEffect.bind (h : HasEffect action effect)
    (hnext : ∀ a, HasEffect (next a) (nextEffect a)) :
    HasEffect (action >>= next) (effect >>= nextEffect) := by
  intro w
  obtain ⟨hfirst, hattempts⟩ := h w
  refine ⟨hfirst.bind fun a => (hnext a _).1, ?_⟩
  rw [run_bind]
  generalize (ExceptT.run action).run w = first at hattempts
  obtain ⟨outcome, later⟩ := first
  cases outcome with
  | error e => exact hattempts
  | ok a => exact (hnext a later).2.trans hattempts

/-- The start may come after steps that start nothing. -/
theorem HasEffect.bindIn (h : HasEffect action effect)
    (hnext : ∀ a, HasEffectIn launch scratch (next a) (nextEffect a)) :
    HasEffectIn launch scratch (action >>= next) (effect >>= nextEffect) := by
  intro w hlaunch hscratch
  obtain ⟨hfirst, hattempts⟩ := h w
  refine hfirst.bind fun a => hnext a _ (hfirst.2.launch_eq.trans hlaunch) ?_
  exact (hfirst.2.nextScratch_eq hattempts).trans hscratch

/-- Behind the start come steps that start nothing. -/
theorem HasEffectIn.bind (h : HasEffectIn launch scratch action effect)
    (hnext : ∀ a, HasEffect (next a) (nextEffect a)) :
    HasEffectIn launch scratch (action >>= next) (effect >>= nextEffect) :=
  fun w hlaunch hscratch => (h w hlaunch hscratch).bind fun a => (hnext a _).1

end Bind

section After

variable {action : Run Unit} {next : Unit → Run β} {effect : Effect β}

/-- A step without an effect of its own can be left out. -/
theorem HasEffect.after (h : HasEffect action (pure ())) (hnext : HasEffect (next ()) effect) :
    HasEffect (action >>= next) effect := by
  have hbind : HasEffect (action >>= next) (pure () >>= fun _ => effect) := h.bind fun _ => hnext
  rwa [pure_bind] at hbind

theorem HasEffect.afterIn (h : HasEffect action (pure ()))
    (hnext : HasEffectIn launch scratch (next ()) effect) :
    HasEffectIn launch scratch (action >>= next) effect := by
  have hbind : HasEffectIn launch scratch (action >>= next) (pure () >>= fun _ => effect) :=
    h.bindIn fun _ => hnext
  rwa [pure_bind] at hbind

end After

/-- A look at the workspace is a look at the program and the directory of the next start. -/
theorem HasEffectIn.look {next : Workspace → Run α} {effect : Effect α}
    (h : ∀ w : Workspace, w.launch = launch → w.nextScratch = scratch →
      HasEffectIn launch scratch (next w) effect) :
    HasEffectIn launch scratch (get >>= next) effect := by
  intro w hlaunch hscratch
  rw [HasEffectAt, run_bind, run_get]
  exact h w hlaunch hscratch w hlaunch hscratch

/-- An inspection has no effect besides its result. -/
theorem hasEffect_inspect [SyntaxParser] (code : String) (minified : Option String)
    (table : Option PositionTable) (mode : InspectionMode) (newParser : Bool) :
    HasEffect (ofLogged (inspect code minified table mode newParser))
      (Effect.ofExcept (Inspection.result code minified table mode)) := by
  rw [← result_inspect code minified table mode newParser]
  exact (hasEffect_report _).after (hasEffect_ofExcept _)

end Run

/-! ## Effects of minifications and analyses -/

namespace Minifier

/-- The completion, if the program was started. -/
def ending (m : Minifier) : Launch → Except AnalysisError Completion
  | .refused reason => .error (.minifier (m.refusal reason))
  | .completed completion => .ok completion

/-- How the program ends that is started on a text. -/
def completion (m : Minifier) (launch : Start → Launch) (scratch text : String) :
    Except AnalysisError Completion :=
  if Text.isWritable m.options.passes then m.ending (launch (m.start scratch text))
  else .error (.minifier .unwritablePasses)

def output (m : Minifier) (launch : Start → Launch) (scratch text : String) :
    Except AnalysisError Minified := do
  (← m.completion launch scratch text).minified

def keepEffect (m : Minifier) (code : String) : Effect Unit :=
  match m.options.outputPath with
  | none => pure ()
  | some path => Effect.writeText path code

/-- Whether code can be kept. -/
def kept (m : Minifier) (files : FileTree) (code : String) : Except AnalysisError Unit :=
  ((m.keepEffect code).on files).1

theorem kept_eq (m : Minifier) (files : FileTree) (code : String) :
    m.kept files code
      = match m.options.outputPath with
        | none => .ok ()
        | some path =>
          ((files.write path (TextFile.encode code)).mapError .file).map fun _ => () := by
  unfold kept keepEffect
  cases m.options.outputPath with
  | none => rfl
  | some path =>
    simp only [Effect.on_writeText]
    cases files.write path (TextFile.encode code) <;> rfl

def minifyEffect (m : Minifier) (launch : Start → Launch) (scratch text : String) :
    Effect Minified := do
  let minified ← Effect.ofExcept (m.output launch scratch text)
  m.keepEffect minified.code
  return minified

variable {launch : Start → Launch} {scratch : String}

theorem complete_eq (m : Minifier) (text : String) :
    m.complete text
      = if Text.isWritable m.options.passes then
          get >>= fun w =>
            Run.note .debug
                ("Executing: " ++ " ".intercalate (m.start w.nextScratch text).arguments)
              >>= fun _ => Run.start (m.start w.nextScratch text)
              >>= fun launched => Run.ofExcept (m.ending launched)
        else throw (.minifier .unwritablePasses) := by
  have hending : (fun launched => Run.ofExcept (m.ending launched)) = fun
      | .refused reason => throw (.minifier (m.refusal reason))
      | .completed completion => pure completion := by
    funext launched
    cases launched <;> rfl
  rw [hending]
  cases hpasses : Text.isWritable m.options.passes <;> simp only [complete, hpasses] <;> rfl

theorem hasEffectIn_complete (m : Minifier) (text : String) :
    Run.HasEffectIn launch scratch (m.complete text)
      (Effect.ofExcept (m.completion launch scratch text)) := by
  rw [complete_eq, completion]
  split
  · refine Run.HasEffectIn.look fun w _ hscratch => (Run.hasEffect_note _ _).afterIn ?_
    rw [hscratch]
    have hbind := (Run.hasEffectIn_start launch scratch (m.start scratch text)).bind
      fun launched => Run.hasEffect_ofExcept (m.ending launched)
    rwa [pure_bind] at hbind
  · exact (Run.hasEffect_ofExcept _).within

theorem hasEffect_keep (m : Minifier) (code : String) :
    Run.HasEffect (m.keep code) (m.keepEffect code) := by
  unfold keep keepEffect
  cases m.options.outputPath with
  | none => exact Run.hasEffect_pure ()
  | some path =>
      have hbind : Run.HasEffect
          (Run.writeText path code >>= fun _ =>
            Run.note .info ("Wrote minified code to " ++ path.toText))
          (Effect.writeText path code >>= pure) :=
        (Run.hasEffect_writeText path code).bind fun _ => Run.hasEffect_note _ _
      rwa [bind_pure] at hbind

theorem hasEffectIn_minify (m : Minifier) (text : String) :
    Run.HasEffectIn launch scratch (m.minify text) (m.minifyEffect launch scratch text) := by
  unfold minifyEffect output
  rw [Effect.ofExcept_bind, bind_assoc]
  refine (Run.hasEffect_note _ _).afterIn ?_
  refine (m.hasEffectIn_complete text).bind fun completion => ?_
  refine (Run.hasEffect_ofExcept _).bind fun minified => ?_
  refine (Run.hasEffect_note _ _).after ?_
  refine (m.hasEffect_keep minified.code).bind fun _ => ?_
  exact (Run.hasEffect_note _ _).after (Run.hasEffect_pure minified)

end Minifier

section Analyses

variable [SyntaxParser] (launch : Start → Launch) (scratch file : String)
  (minifier : Option Minifier) (mode : InspectionMode)

/-- The effect of an analysis: a file is read, and minified code may be kept. -/
def analysisEffect : Effect Report := do
  let code ← Effect.readText (Path.ofText file)
  match minifier with
  | none => Effect.ofExcept (Inspection.result code none none mode)
  | some minifier =>
    let output ← minifier.minifyEffect launch scratch code
    let table ← Effect.ofExcept (output.table.toPositions.mapError .map)
    Effect.ofExcept (Inspection.result code (some output.code) (some table) mode)

/-- What an analysis comes to. -/
def analysisResult (files : FileTree) : Except AnalysisError Report := do
  let code ← files.readText (Path.ofText file)
  match minifier with
  | none => Inspection.result code none none mode
  | some minifier =>
    let output ← minifier.output launch scratch code
    minifier.kept files output.code
    let table ← output.table.toPositions.mapError .map
    Inspection.result code (some output.code) (some table) mode

theorem analysisEffect_on_fst (files : FileTree) :
    ((analysisEffect launch scratch file minifier mode).on files).1
      = analysisResult launch scratch file minifier mode files := by
  simp only [analysisEffect, analysisResult, Effect.on_bind, Effect.on_readText]
  cases files.readText (Path.ofText file) with
  | error e => rfl
  | ok code =>
    cases minifier with
    | none => rfl
    | some minifier =>
      simp only [Minifier.minifyEffect, Effect.on_bind, Effect.on_ofExcept]
      simp only [bind, Except.bind, Minifier.kept]
      cases minifier.output launch scratch code with
      | error e => rfl
      | ok output =>
        simp only
        generalize (minifier.keepEffect output.code).on files = ending
        obtain ⟨outcome, later⟩ := ending
        cases outcome with
        | error e => rfl
        | ok _ =>
          simp only [Effect.on_pure]
          cases output.table.toPositions.mapError AnalysisError.map <;> rfl

theorem hasEffectIn_analyse :
    Run.HasEffectIn launch scratch (analyse file minifier mode)
      (analysisEffect launch scratch file minifier mode) := by
  refine (Run.hasEffect_readText _).bindIn fun code => (Run.hasEffect_note _ _).afterIn ?_
  cases minifier with
  | none => exact (Run.hasEffect_inspect _ _ _ _ _).within
  | some minifier =>
      refine (minifier.hasEffectIn_minify code).bind fun output => ?_
      exact (Run.hasEffect_ofExcept _).bind fun table => Run.hasEffect_inspect _ _ _ _ _

end Analyses

end BundleSize
