import BundleSize.Proofs.Writes
import BundleSize.Script.Tree
import BundleSize.SizeTool
import Mathlib.Data.List.Forall2

/-!
# Queries one after the other

A tool keeps nothing from one query to the next, the records in its workspace decide
nothing, and the attempts no more than the name of the next scratch directory. What is
left for queries to meet in are the files, and the only file that a query can change is
the one where its minifier keeps code. An answer depends on the files in two ways:
through the file that the query is about, and through what is said about keeping the
code. The second is the same after any number of writes at that path
(`Minifier.kept_eq_of_mayBecome`), and the first as long as the query is about another
file.

So a query that is about another file is answered as if it came first and were given
the scratch directory that it is given (`SizeTool.answers_independent`); which one that
is matters to nobody but the program. Where a query is about the very file in which
code is kept, nothing stops an earlier query from replacing that file, and a program
that tells the name of its directory answers the same query in two ways
(`not_answers_independent`).
-/

namespace BundleSize

variable {files files' : FileTree} {launch : Start → Launch} {scratch : String}

/-! ## Analyses -/

theorem mayBecome_analysis [SyntaxParser] {output : Option Path} {minifier : Option Minifier}
    (houtput : ∀ m, minifier = some m → m.options.outputPath = output) (file : String)
    (mode : InspectionMode) (files : FileTree) :
    files.MayBecome output ((analysisEffect launch scratch file minifier mode).on files).2 := by
  simp only [analysisEffect, Effect.on_bind, Effect.on_readText]
  cases files.readText (Path.ofText file) with
  | error e => exact .same
  | ok code =>
    cases minifier with
    | none => exact .same
    | some m =>
      simp only [Minifier.minifyEffect, Effect.on_bind, Effect.on_ofExcept]
      cases m.output launch scratch code with
      | error e => exact .same
      | ok minified =>
        have hkeep := m.mayBecome_keep files minified.code
        rw [houtput m rfl] at hkeep
        simp only
        generalize (m.keepEffect minified.code).on files = ending at hkeep
        obtain ⟨outcome, later⟩ := ending
        cases outcome with
        | error e => exact hkeep
        | ok _ =>
          simp only [Effect.on_pure]
          cases minified.table.toPositions.mapError AnalysisError.map <;> exact hkeep

theorem FileTree.readText_eq_of_contents? {p : Path} (hfile : (files.contents? p).isSome)
    (h : files'.contents? p = files.contents? p) (hrefusals : files'.refusals = files.refusals) :
    files'.readText p = files.readText p := by
  obtain ⟨bytes, hbytes⟩ := Option.isSome_iff_exists.mp hfile
  rw [readText, readText, read_eq_of_contents? hbytes, read_eq_of_contents? (h.trans hbytes),
    hrefusals]

theorem analysisResult_eq [SyntaxParser] {output : Option Path} {minifier : Option Minifier}
    (houtput : ∀ m, minifier = some m → m.options.outputPath = output)
    (hfiles : files.MayBecome output files') {file : String}
    (hread : files'.readText (Path.ofText file) = files.readText (Path.ofText file))
    (mode : InspectionMode) :
    analysisResult launch scratch file minifier mode files'
      = analysisResult launch scratch file minifier mode files := by
  unfold analysisResult
  rw [hread]
  cases minifier with
  | none => rfl
  | some m =>
    obtain rfl := houtput m rfl
    simp only [Minifier.kept_eq_of_mayBecome hfiles]

namespace SizeTool

variable {t : SizeTool} {q : SizeQuery}

def minifierFor (t : SizeTool) (q : SizeQuery) : Option Minifier :=
  if q.minify then some t.minifier else none

theorem outputPath_of_minifierFor (m : Minifier) (h : t.minifierFor q = some m) :
    m.options.outputPath = t.minifier.options.outputPath := by
  unfold minifierFor at h
  split at h
  · rw [Option.some.inj h]
  · cases h

/-- What a report gives for an answer: its members, if it can be recorded. -/
def recordedMembers (r : Report) (limit : Option Int) :
    Except PercentageError (List (String × Json)) := do
  let _ ← r.toRecords .debug limit
  r.members limit

section Answers

variable [SyntaxParser] [PatternEngine]

def membersEffect (launch : Start → Launch) (scratch : String) (t : SizeTool) (q : SizeQuery) :
    Effect (List (String × Json)) := do
  let filter ← Effect.ofExcept ((NameFilter.ofTexts q.marker q.pattern).mapError .pattern)
  let report ← analysisEffect launch scratch q.file (t.minifierFor q) { filter, strict := t.strict }
  Effect.ofExcept ((recordedMembers report q.limit).mapError .percentage)

theorem hasEffectIn_members (t : SizeTool) (q : SizeQuery) :
    Run.HasEffectIn launch scratch (t.members q) (t.membersEffect launch scratch q) := by
  refine (Run.hasEffect_note _ _).afterIn ((Run.hasEffect_ofExcept _).bindIn fun filter => ?_)
  refine (hasEffectIn_analyse _ _ _ _ _).bind fun report => ?_
  unfold recordedMembers
  cases report.toRecords .debug q.limit with
  | error e => exact (Run.hasEffect_report _).after (Run.hasEffect_ofExcept _)
  | ok records => exact (Run.hasEffect_report _).after (Run.hasEffect_ofExcept _)

/-- The answer that the members of a report make, if there are any. -/
def answerOf (q : SizeQuery) : Except AnalysisError (List (String × Json)) → SizeAnswer
  | .ok members => .measured q.file q.minify members
  | .error e => .failed e

/-- The answer to a query, and the files that it leaves. -/
def answerOn (launch : Start → Launch) (scratch : String) (t : SizeTool) (q : SizeQuery)
    (files : FileTree) : SizeAnswer × FileTree :=
  match files.isFile (Path.ofText q.file) with
  | .error e => (.brokenOff e, files)
  | .ok false => (.declined ("File not found: " ++ q.file), files)
  | .ok true =>
    let ending := (t.membersEffect launch scratch q).on files
    (answerOf q ending.1, ending.2)

theorem run_answer_eq (t : SizeTool) (q : SizeQuery) (w : Workspace) :
    (t.answer q).run w
      = match w.files.isFile (Path.ofText q.file) with
        | .error e => (.brokenOff e, w)
        | .ok false => (.declined ("File not found: " ++ q.file), w)
        | .ok true =>
          match (ExceptT.run (t.members q)).run w with
          | (.ok members, later) => (.measured q.file q.minify members, later)
          | (.error e, later) => (.failed e, later.report [failureRecord q e]) := by
  simp only [answer, StateT.run_bind, StateT.run_get, pure_bind]
  cases w.files.isFile (Path.ofText q.file) with
  | error e => rfl
  | ok found =>
    cases found with
    | false => rfl
    | true =>
      simp only [StateT.run_bind]
      generalize StateT.run (ExceptT.run (t.members q)) w = first
      obtain ⟨outcome, later⟩ := first
      cases outcome <;> rfl

theorem run_answer (t : SizeTool) (q : SizeQuery) (w : Workspace) :
    ((t.answer q).run w).1 = (t.answerOn w.launch w.nextScratch q w.files).1
      ∧ w.Becomes (t.answerOn w.launch w.nextScratch q w.files).2 ((t.answer q).run w).2 := by
  rw [run_answer_eq, answerOn]
  split
  · exact ⟨rfl, .refl w⟩
  · exact ⟨rfl, .refl w⟩
  · obtain ⟨hresult, hlater⟩ := t.hasEffectIn_members q w rfl rfl
    generalize (ExceptT.run (t.members q)).run w = first at hresult hlater
    obtain ⟨outcome, later⟩ := first
    simp only [← hresult]
    cases outcome with
    | ok members => exact ⟨rfl, hlater⟩
    | error e => exact ⟨rfl, hlater.files_eq ▸ hlater.trans (.report later _)⟩

theorem mayBecome_answerOn (t : SizeTool) (q : SizeQuery) (files : FileTree) :
    files.MayBecome t.minifier.options.outputPath (t.answerOn launch scratch q files).2 := by
  unfold answerOn
  split
  · exact .same
  · exact .same
  · simp only [membersEffect, Effect.on_bind, Effect.on_ofExcept]
    cases (NameFilter.ofTexts q.marker q.pattern).mapError AnalysisError.pattern with
    | error e => exact .same
    | ok filter =>
      have hanalysis : files.MayBecome t.minifier.options.outputPath
          ((analysisEffect launch scratch q.file (t.minifierFor q)
            { filter, strict := t.strict }).on files).2 :=
        mayBecome_analysis outputPath_of_minifierFor _ _ _
      simp only
      generalize (analysisEffect _ _ _ _ _).on files = ending at hanalysis
      obtain ⟨outcome, later⟩ := ending
      cases outcome <;> exact hanalysis

def membersResult (launch : Start → Launch) (scratch : String) (t : SizeTool) (q : SizeQuery)
    (files : FileTree) : Except AnalysisError (List (String × Json)) := do
  let filter ← (NameFilter.ofTexts q.marker q.pattern).mapError .pattern
  let report ← analysisResult launch scratch q.file (t.minifierFor q)
    { filter, strict := t.strict } files
  (recordedMembers report q.limit).mapError .percentage

theorem membersEffect_on_fst (t : SizeTool) (q : SizeQuery) (files : FileTree) :
    ((t.membersEffect launch scratch q).on files).1 = t.membersResult launch scratch q files := by
  simp only [membersEffect, membersResult, Effect.on_bind, Effect.on_ofExcept]
  cases (NameFilter.ofTexts q.marker q.pattern).mapError AnalysisError.pattern with
  | error e => rfl
  | ok filter =>
    simp only [bind, Except.bind, ← analysisEffect_on_fst]
    generalize (analysisEffect _ _ _ _ _).on files = ending
    obtain ⟨outcome, later⟩ := ending
    cases outcome <;> rfl

theorem answerOn_fst (t : SizeTool) (q : SizeQuery) (files : FileTree) :
    (t.answerOn launch scratch q files).1
      = match files.isFile (Path.ofText q.file) with
        | .error e => .brokenOff e
        | .ok false => .declined ("File not found: " ++ q.file)
        | .ok true => answerOf q (t.membersResult launch scratch q files) := by
  rw [answerOn, ← membersEffect_on_fst]
  split <;> rfl

/-- Writes where the tool keeps code do not change the answer to a query about another file. -/
theorem answerOn_fst_eq (hfiles : files.MayBecome t.minifier.options.outputPath files')
    (hfile : files'.contents? (Path.ofText q.file) = files.contents? (Path.ofText q.file)) :
    (t.answerOn launch scratch q files').1 = (t.answerOn launch scratch q files).1 := by
  have hsame : files'.isFile (Path.ofText q.file) = files.isFile (Path.ofText q.file) := by
    rw [FileTree.isFile_eq, FileTree.isFile_eq, hfiles.refusals_eq, hfile]
  rw [answerOn_fst, answerOn_fst, hsame]
  split
  · rfl
  · rfl
  · rename_i hfound
    have hread := FileTree.readText_eq_of_contents? (FileTree.contents?_isSome_of_isFile hfound)
      hfile hfiles.refusals_eq
    simp only [membersResult, analysisResult_eq outputPath_of_minifierFor hfiles hread]

/-- A query that gets as far as keeping code replaces what was kept before, however it ends. -/
theorem contents?_of_answer {w : Workspace} {p : Path} {filter : NameFilter} {code : String}
    {minified : Minified} (hminify : q.minify = true)
    (hpath : t.minifier.options.outputPath = some p)
    (hfilter : NameFilter.ofTexts q.marker q.pattern = .ok filter)
    (hfound : w.files.isFile (Path.ofText q.file) = .ok true)
    (hread : w.files.readText (Path.ofText q.file) = .ok code)
    (houtput : t.minifier.output w.launch w.nextScratch code = .ok minified)
    (hkept : t.minifier.kept w.files minified.code = .ok ()) :
    ((t.answer q).run w).2.files.contents? p = some (TextFile.encode minified.code) := by
  have hcontents := Minifier.contents?_of_kept hpath hkept
  rw [(t.run_answer q w).2.files_eq]
  unfold Minifier.kept at hkept
  simp only [answerOn, hfound, membersEffect, minifierFor, hminify, if_true, analysisEffect,
    Minifier.minifyEffect, Effect.on_bind, Effect.on_ofExcept, Effect.on_readText, hfilter, hread,
    houtput, Except.mapError]
  generalize (t.minifier.keepEffect minified.code).on w.files = ending at hkept hcontents
  obtain ⟨outcome, later⟩ := ending
  obtain rfl : outcome = .ok () := hkept
  simp only [Effect.on_pure]
  cases minified.table.toPositions with
  | error e => exact hcontents
  | ok table =>
    simp only
    cases Inspection.result code (some minified.code) (some table)
        { filter, strict := t.strict } with
    | error e => exact hcontents
    | ok report => exact hcontents

end Answers

/-! ## Sequences of queries -/

/-- The query is about another file than the one in which the tool keeps code. -/
def Apart (t : SizeTool) (files : FileTree) (q : SizeQuery) : Prop :=
  ∀ p place, t.minifier.options.outputPath = some p → files.find p = .ok place →
    files.find (Path.ofText q.file) ≠ .ok place

theorem contents?_of_apart (hapart : t.Apart files q)
    (hfiles : files.MayBecome t.minifier.options.outputPath files') :
    files'.contents? (Path.ofText q.file) = files.contents? (Path.ofText q.file) :=
  hfiles.contents?_eq hapart

/-- What becomes of a start does not depend on the name of the scratch directory. -/
def IgnoresScratch (t : SizeTool) (launch : Start → Launch) : Prop :=
  ∀ scratch scratch' text,
    launch (t.minifier.start scratch text) = launch (t.minifier.start scratch' text)

section Sequences

variable [SyntaxParser] [PatternEngine]

theorem answerOn_eq_of_ignoresScratch (h : t.IgnoresScratch launch) (scratch scratch' : String)
    (q : SizeQuery) (files : FileTree) :
    (t.answerOn launch scratch q files).1 = (t.answerOn launch scratch' q files).1 := by
  have houtput : t.minifier.output launch scratch = t.minifier.output launch scratch' := by
    funext text
    rw [Minifier.output, Minifier.output, Minifier.completion, Minifier.completion,
      h scratch scratch' text]
  have hresult : t.membersResult launch scratch q files
      = t.membersResult launch scratch' q files := by
    unfold membersResult analysisResult minifierFor
    cases q.minify with
    | false => rfl
    | true => simp only [if_true, houtput]
  rw [answerOn_fst, answerOn_fst, hresult]

/-- Queries that are answered one after the other, each with the workspace that it meets. -/
def meetings (t : SizeTool) : List SizeQuery → Workspace → List (SizeQuery × Workspace)
  | [], _ => []
  | q :: queries, w => (q, w) :: t.meetings queries ((t.answer q).run w).2

theorem map_fst_meetings (t : SizeTool) : ∀ (queries : List SizeQuery) (w : Workspace),
    (t.meetings queries w).map Prod.fst = queries
  | [], _ => rfl
  | q :: queries, w => congrArg (q :: ·) (map_fst_meetings t queries ((t.answer q).run w).2)

/-- The answer to a query as the first one, when it is given a scratch directory. -/
def firstAnswer (t : SizeTool) (q : SizeQuery) (w : Workspace) (scratch : String) : SizeAnswer :=
  ((t.answer q).run { w with scratch, suffix := fun _ => "" }).1

/-- The answer is that to the query as the first one in the same scratch directory, and in any if
the program does not care. -/
structure AnsweredAsFirst (t : SizeTool) (w : Workspace) (q : SizeQuery) (scratch : String)
    (a : SizeAnswer) : Prop where
  inDirectory : a = t.firstAnswer q w scratch
  ofIgnores : t.IgnoresScratch w.launch → a = ((t.answer q).run w).1

/-- One query after any others is answered as the first one would be, and leaves files that differ
from the first ones by writes where code is kept. -/
theorem answer_later {w w' : Workspace} (t : SizeTool) (q : SizeQuery)
    (hw : w.Becomes files' w')
    (hfiles : w.files.MayBecome t.minifier.options.outputPath files') :
    (t.Apart w.files q → t.AnsweredAsFirst w q w'.nextScratch ((t.answer q).run w').1)
      ∧ ∃ files'', w.files.MayBecome t.minifier.options.outputPath files''
        ∧ w.Becomes files'' ((t.answer q).run w').2 := by
  obtain ⟨hlater, hafter⟩ := t.run_answer q w'
  obtain rfl := hw.files_eq
  rw [hw.launch_eq] at hlater hafter
  constructor
  · intro hapart
    have hsame : ((t.answer q).run w').1 = (t.answerOn w.launch w'.nextScratch q w.files).1 :=
      hlater.trans (answerOn_fst_eq hfiles (contents?_of_apart hapart hfiles))
    constructor
    · let first : Workspace := { w with scratch := w'.nextScratch, suffix := fun _ => "" }
      have hscratch : first.nextScratch = w'.nextScratch := String.append_empty
      rw [hsame, firstAnswer, (t.run_answer q first).1, hscratch]
    · intro hignores
      rw [hsame, (t.run_answer q w).1]
      exact answerOn_eq_of_ignoresScratch hignores _ _ q w.files
  · exact ⟨_, hfiles.trans (t.mayBecome_answerOn q w'.files), hw.trans hafter⟩

theorem answers_later {w : Workspace} (t : SizeTool) : ∀ (queries : List SizeQuery)
    {w' : Workspace} {files' : FileTree}, w.Becomes files' w' →
      w.files.MayBecome t.minifier.options.outputPath files' →
      List.Forall₂
          (fun m a => t.Apart w.files m.1 → t.AnsweredAsFirst w m.1 m.2.nextScratch a)
          (t.meetings queries w') ((queries.mapM t.answer).run w').1
        ∧ w.files.MayBecome t.minifier.options.outputPath
          ((queries.mapM t.answer).run w').2.files
  | [], w', files', hw, hfiles => by
    obtain rfl := hw.files_eq
    exact ⟨.nil, hfiles⟩
  | q :: queries, w', files', hw, hfiles => by
    -- whatever came before, the files are those of the start but for writes at the output path
    obtain ⟨hanswer, files'', hfiles'', hw''⟩ := t.answer_later q hw hfiles
    obtain ⟨hanswers, hlast⟩ := answers_later t queries hw'' hfiles''
    rw [List.mapM_cons]
    exact ⟨.cons hanswer hanswers, hlast⟩

/-- **Queries meet only in the file where code is kept.** Let a tool answer any queries one after
the other, in any workspace. Whatever they are about and however they go, no file changes but the
one that the output path leads to, if there is one. The file that a query is about keeps its bytes,
and the query is answered as if it were the first and were given the scratch directory that it is
given, unless it is about that very file. Only a program that tells the directory's name can tell
the two apart where the directory is another. -/
theorem answers_independent (t : SizeTool) (w : Workspace) (queries : List SizeQuery) :
    let answered := (queries.mapM t.answer).run w
    (∀ place, (∀ p, t.minifier.options.outputPath = some p → w.files.find p ≠ .ok place) →
        answered.2.files.bytes? place = w.files.bytes? place)
      ∧ List.Forall₂ (fun m a => t.Apart w.files m.1 →
        answered.2.files.contents? (Path.ofText m.1.file) = w.files.contents? (Path.ofText m.1.file)
          ∧ t.AnsweredAsFirst w m.1 m.2.nextScratch a) (t.meetings queries w) answered.1 := by
  intro answered
  obtain ⟨hanswers, hfiles⟩ := t.answers_later queries (.refl w) .same
  refine ⟨fun place hplace => hfiles.bytes?_eq hplace, ?_⟩
  exact hanswers.imp fun {m a} hanswer hapart =>
    ⟨contents?_of_apart hapart hfiles, hanswer hapart⟩

end Sequences

/-- What a program leaves that makes `var b;` of everything. -/
def constantCode : Completion :=
  { status := 0, diagnostics := [], code := some (TextFile.encode "var b;")
    map := some (TextFile.encode
      "\x7b\"version\":3,\"sources\":[],\"names\":[],\"mappings\":\"\"\x7d") }

/-- One file, and that program. -/
def oneFile : Workspace :=
  { files :=
      { home := ["home"]
        files := [(["home", "elm.js"], TextFile.encode "(function()\x7bvar a=1;\x7d)();")] }
    launch := fun _ => .completed constantCode
    scratch := "/tmp" }

/-- The tool that keeps minified code at a path. -/
def keepingAt (path : String) : SizeTool :=
  { minifier := { options := { outputPath := some (Path.ofText path) } } }

theorem contents?_oneFile {path : String} (hwrite : (oneFile.files.write (Path.ofText path)
      (TextFile.encode "var b;")).isOk = true) :
    (((keepingAt path).answer { file := "elm.js", minify := true }).run oneFile).2.files.contents?
      (Path.ofText path) = some (TextFile.encode "var b;") := by
  have hread : (oneFile.files.readText (Path.ofText "elm.js")).toOption
      = some "(function()\x7bvar a=1;\x7d)();" := by decide +kernel
  have hminified : constantCode.minified.toOption.map (·.code) = some "var b;" := by
    decide +kernel
  have hpasses : Text.isWritable (2 : Nat) = true := by decide +kernel
  have hcompletion : ∀ text, (keepingAt path).minifier.completion oneFile.launch
      oneFile.nextScratch text = .ok constantCode := fun _ => if_pos hpasses
  have houtput : ∀ text, (keepingAt path).minifier.output oneFile.launch oneFile.nextScratch text
      = constantCode.minified := by
    intro text
    rw [Minifier.output, hcompletion text]
    rfl
  obtain ⟨minified, hminified, hcode⟩ := Option.map_eq_some_iff.mp hminified
  have hpath : (keepingAt path).minifier.options.outputPath = some (Path.ofText path) := rfl
  have hkept : (keepingAt path).minifier.kept oneFile.files minified.code = .ok () := by
    rw [Minifier.kept_eq, hpath, hcode]
    cases hfiles : oneFile.files.write (Path.ofText path) (TextFile.encode "var b;") with
    | error e =>
      rw [hfiles] at hwrite
      cases hwrite
    | ok files => simp only [hfiles, Except.mapError, Except.map]
  have hfound : oneFile.files.isFile (Path.ofText "elm.js") = .ok true := by decide +kernel
  rw [← hcode]
  exact contents?_of_answer rfl hpath rfl hfound (eq_ok_of_toOption hread)
    ((houtput _).trans (eq_ok_of_toOption hminified)) hkept

/-- Code is kept in a file of its own. -/
theorem answers_independent_keptApart :
    let queries : List SizeQuery := [{ file := "elm.js", minify := true }, { file := "elm.js" }]
    let answered := (queries.mapM (keepingAt "elm.min.js").answer).run oneFile
    (((keepingAt "elm.min.js").answer { file := "elm.js", minify := true }).run
        oneFile).2.files.contents? (Path.ofText "elm.min.js") = some (TextFile.encode "var b;")
      ∧ List.Forall₂ (fun q a =>
        answered.2.files.contents? (Path.ofText q.file)
            = oneFile.files.contents? (Path.ofText q.file)
          ∧ a = (((keepingAt "elm.min.js").answer q).run oneFile).1) queries answered.1 := by
  intro queries answered
  refine ⟨contents?_oneFile (by decide +kernel), ?_⟩
  have hplaces : oneFile.files.find (Path.ofText "elm.js") = .ok ["home", "elm.js"]
      ∧ oneFile.files.find (Path.ofText "elm.min.js") = .ok ["home", "elm.min.js"] := by
    decide +kernel
  have hmet := (keepingAt "elm.min.js").map_fst_meetings queries oneFile
  have hapart : ∀ m ∈ (keepingAt "elm.min.js").meetings queries oneFile,
      (keepingAt "elm.min.js").Apart oneFile.files m.1 := by
    intro m hm p place hp hplace hsame
    have hfile : m.1.file = "elm.js" := by
      rcases List.mem_cons.mp (hmet ▸ List.mem_map_of_mem hm) with hq | hq
      · rw [hq]
      · rw [List.mem_singleton.mp hq]
    obtain rfl := Option.some.inj hp
    have hfirst := Except.ok.inj (hplaces.1.symm.trans (hfile ▸ hsame))
    have hsecond := Except.ok.inj (hplaces.2.symm.trans hplace)
    have hne : ["home", "elm.js"] ≠ ["home", "elm.min.js"] := by decide
    exact hne (hfirst.trans hsecond.symm)
  have hignores : (keepingAt "elm.min.js").IgnoresScratch oneFile.launch := fun _ _ _ => rfl
  have hanswers := (answers_independent (keepingAt "elm.min.js") oneFile queries).2
  have hboth := (List.forall₂_and_left _ _).mpr ⟨hapart, hanswers⟩
  rw [← hmet, List.forall₂_map_left_iff]
  refine hboth.imp fun {m a} h => ?_
  obtain ⟨hkept, hfirst⟩ := h.2 h.1
  exact ⟨hkept, hfirst.ofIgnores hignores⟩

/-- A program that gives up and tells the name of its input file. -/
def telling : Workspace :=
  { files := oneFile.files
    launch := fun s => .completed
      { status := 1, diagnostics := TextFile.encode (" ".intercalate (s.arguments.take 2))
        code := none, map := none }
    scratch := "/tmp/", suffix := toString }

/-- Code is kept in the file that it is made of, or the program tells the name of its directory. -/
theorem not_answers_independent :
    (¬ ∀ (t : SizeTool) (w : Workspace) (queries : List SizeQuery),
      List.Forall₂ (fun q a =>
        ((queries.mapM t.answer).run w).2.files.contents? (Path.ofText q.file)
            = w.files.contents? (Path.ofText q.file)
          ∧ a = ((t.answer q).run w).1) queries ((queries.mapM t.answer).run w).1)
    ∧ ¬ ∀ (t : SizeTool) (w : Workspace) (queries : List SizeQuery),
      t.minifier.options.outputPath = none →
      List.Forall₂ (fun q a => a = ((t.answer q).run w).1) queries
        ((queries.mapM t.answer).run w).1 := by
  constructor
  · intro h
    have hanswers := h (keepingAt "elm.js") oneFile [{ file := "elm.js", minify := true }]
    have hchanged : (([{ file := "elm.js", minify := true }].mapM (keepingAt "elm.js").answer).run
        oneFile).2.files.contents? (Path.ofText "elm.js") = some (TextFile.encode "var b;") :=
      contents?_oneFile (by decide +kernel)
    have hinitial : oneFile.files.contents? (Path.ofText "elm.js")
        ≠ some (TextFile.encode "var b;") := by
      decide +kernel
    cases hanswers with
    | cons hfirst _ => exact hinitial (hfirst.1.symm.trans hchanged)
  · intro h
    let q : SizeQuery := { file := "elm.js", minify := true }
    have hanswers := h {} telling [q, q] rfl
    have hdiffer : ((([q, q].mapM (SizeTool.answer {})).run telling).1.getD 1
        (.declined "")).toJson.write ≠ (((SizeTool.answer {} q).run telling).1).toJson.write := by
      decide +kernel
    cases hanswers with
    | cons _ hrest =>
      cases hrest with
      | cons hsecond _ => exact hdiffer (congrArg (fun a => a.toJson.write) hsecond)

end SizeTool

end BundleSize
