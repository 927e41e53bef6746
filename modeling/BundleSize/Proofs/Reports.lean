import BundleSize.Inspection
import BundleSize.Proofs.Attribution

/-!
# What an inspection comes to

An inspection writes a journal on its way, but what is in it decides nothing:
its result is that of a computation without one (`Inspection.conclusion`,
`result_inspect`). The journal is taken off step by step, one lemma for each
function; `Logged.Gives` says that a computation has a result whatever was
reported before it.

What is left is built from the ranges that the definitions occupy
(`Inspection.build_of_conclusion`). The ranking only permutes them, so the sizes
that are listed are theirs (`Report.sizes_of_build`), and what is attributed in
total is what they occupy (`Report.attributed_of_build`).
-/

namespace BundleSize

/-! ## Computations that may fail -/

theorem bind_eq_ok {x : Except ε α} {f : α → Except ε β} {b : β} (h : x >>= f = .ok b) :
    ∃ a, x = .ok a ∧ f a = .ok b := by
  cases x with
  | error e => cases h
  | ok a => exact ⟨a, rfl, h⟩

theorem bind_eq_error {x : Except ε α} {f : α → Except ε β} {e : ε} (h : x >>= f = .error e) :
    x = .error e ∨ ∃ a, x = .ok a ∧ f a = .error e := by
  cases x with
  | error e' => exact Or.inl (congrArg Except.error (Except.error.inj h))
  | ok a => exact Or.inr ⟨a, rfl, h⟩

theorem mapError_eq_ok {x : Except ε α} {f : ε → ε'} {a : α} (h : x.mapError f = .ok a) :
    x = .ok a := by
  cases x with
  | error e => cases h
  | ok b =>
      obtain rfl : b = a := Except.ok.inj h
      rfl

theorem mapError_eq_error {x : Except ε α} {f : ε → ε'} {e : ε'} (h : x.mapError f = .error e) :
    ∃ cause, x = .error cause ∧ f cause = e := by
  cases x with
  | error cause => exact ⟨cause, rfl, Except.error.inj h⟩
  | ok a => cases h

theorem map_eq_ok {x : Except ε α} {f : α → β} {b : β} (h : x.map f = .ok b) :
    ∃ a, x = .ok a ∧ f a = b := by
  cases x with
  | error e => cases h
  | ok a => exact ⟨a, rfl, Except.ok.inj h⟩

theorem map_eq_error {x : Except ε α} {f : α → β} {e : ε} (h : x.map f = .error e) :
    x = .error e := by
  cases x with
  | error e' => exact congrArg Except.error (Except.error.inj h)
  | ok a => cases h

theorem eq_ok_of_toOption {x : Except ε α} {a : α} (h : x.toOption = some a) : x = .ok a := by
  cases x with
  | error e => cases h
  | ok b => exact congrArg Except.ok (Option.some.inj h)

theorem exists_mapM {f : α → Except ε β} : ∀ {l : List α}, (∀ a ∈ l, ∃ b, f a = .ok b) →
    ∃ bs, l.mapM f = .ok bs
  | [], _ => ⟨[], rfl⟩
  | a :: l, h => by
      obtain ⟨b, hb⟩ := h a (List.mem_cons_self ..)
      obtain ⟨bs, hbs⟩ := exists_mapM fun x hx => h x (List.mem_cons_of_mem _ hx)
      exact ⟨b :: bs, by rw [List.mapM_cons, hb, hbs]; rfl⟩

/-- A computation with a state runs its first part, and goes on unless that failed. -/
theorem run_bind {σ : Type} (action : ExceptT ε (StateM σ) α) (next : α → ExceptT ε (StateM σ) β)
    (s : σ) :
    (ExceptT.run (action >>= next)).run s
      = match (ExceptT.run action).run s with
        | (.ok a, later) => (ExceptT.run (next a)).run later
        | (.error e, later) => (.error e, later) := by
  rw [ExceptT.run_bind, StateT.run_bind]
  generalize (ExceptT.run action).run s = first
  obtain ⟨outcome, later⟩ := first
  cases outcome <;> rfl

/-! ## Results without the journal -/

namespace Logged

/-- The computation has the result, whatever is in the journal when it starts. -/
def Gives (action : Logged ε α) (result : Except ε α) : Prop :=
  ∀ journal, ((ExceptT.run action).run journal).1 = result

theorem Gives.result {action : Logged ε α} {result : Except ε α} (h : Gives action result) :
    (run action).1 = result :=
  h []

theorem gives_pure (a : α) : Gives (pure a : Logged ε α) (.ok a) := fun _ => rfl

theorem gives_ofExcept (result : Except AnalysisError α) :
    Gives (Inspection.ofExcept result) result :=
  fun _ => rfl

theorem gives_report (records : List Record) : Gives (report records : Logged ε Unit) (.ok ()) :=
  fun _ => rfl

theorem gives_note (level : Level) (message : String) :
    Gives (note level message : Logged ε Unit) (.ok ()) :=
  fun _ => rfl

theorem Gives.bind {action : Logged ε α} {result : Except ε α} {next : α → Logged ε β}
    {nextResult : α → Except ε β} (h : Gives action result)
    (hnext : ∀ a, Gives (next a) (nextResult a)) :
    Gives (action >>= next) (result >>= nextResult) := by
  intro journal
  have hresult := h journal
  rw [run_bind]
  generalize (ExceptT.run action).run journal = first at hresult
  obtain ⟨outcome, later⟩ := first
  obtain rfl : outcome = result := hresult
  cases outcome with
  | ok a => exact hnext a later
  | error e => rfl

/-- A step that only reports something can be left out. -/
theorem Gives.after {action : Logged ε Unit} {next : Unit → Logged ε β} {result : Except ε β}
    (h : Gives action (.ok ())) (hnext : Gives (next ()) result) :
    Gives (action >>= next) result := by
  have hbind : Gives (action >>= next) ((.ok () : Except ε Unit) >>= fun _ => result) :=
    h.bind fun _ => hnext
  exact hbind

/-- So can a report about the result. -/
theorem Gives.noted {action : Logged ε α} {result : Except ε α} (h : Gives action result)
    (level : Level) (message : α → String) :
    Gives (action >>= fun a => note level (message a) >>= fun _ => pure a) result := by
  have hbind : Gives (action >>= fun a => note level (message a) >>= fun _ => pure a)
      (result >>= Except.ok) :=
    h.bind fun a => (gives_note level (message a)).after (gives_pure a)
  cases result <;> exact hbind

end Logged

/-! ## Inspections -/

namespace Inspection

open Logged

/-- The attributed ranges, and the attributor after the run. -/
def attribution (program : Program) (translator : Translator) (mode : InspectionMode) :
    Except AnalysisError (List AttributedRange × Attributor) :=
  let (ranges, attributor, _) :=
    (Attributor.start translator mode.strict).assignAll (program.definitions mode.filter)
  do
    let ranges ← ranges.mapError .attribution
    return (ranges, attributor)

/-- The report of a parsed program. -/
def conclusion (program : Program) (size : Int) (translator : Translator) (mode : InspectionMode) :
    Except AnalysisError Report := do
  let (ranges, attributor) ← attribution program translator mode
  (Report.build ranges size attributor.anomalies).mapError .percentage

/-- The program that is measured. -/
def measured [SyntaxParser] (program : Program) : Option String → Except AnalysisError Program
  | some text => (Program.read text).mapError .unparsable
  | none => .ok program

/-- The report of a text. -/
def result [SyntaxParser] (code : String) (minified : Option String) (table : Option PositionTable)
    (mode : InspectionMode) : Except AnalysisError Report := do
  if minified.isSome ∧ table.isNone then throw .tableRequired
  let program ← (Program.read code).mapError .unparsable
  let measured ← measured program minified
  conclusion program measured.size (Translator.ofTexts code minified table) mode

theorem gives_parse [SyntaxParser] (text : String) :
    Gives (parse text) ((Program.read text).mapError .unparsable) :=
  (gives_ofExcept _).noted _ _

theorem gives_assign (program : Program) (translator : Translator) (mode : InspectionMode) :
    Gives (assign program translator mode) (attribution program translator mode) := by
  unfold assign attribution
  simp only
  generalize Attributor.assignAll _ _ = run
  obtain ⟨ranges, attributor, records⟩ := run
  refine (gives_report records).after ?_
  refine (gives_ofExcept _).bind fun kept => ?_
  split
  · exact (gives_note _ _).after ((gives_note _ _).after (gives_pure _))
  · exact (gives_note _ _).after (gives_pure _)

theorem gives_conclusion (program : Program) (size : Int) (translator : Translator)
    (mode : InspectionMode) :
    Gives (report program size translator mode) (conclusion program size translator mode) := by
  refine (gives_assign program translator mode).bind fun ⟨ranges, attributor⟩ => ?_
  exact (gives_note _ _).after ((gives_ofExcept _).noted _ _)

theorem gives_inspect [SyntaxParser] (code : String) (minified : Option String)
    (table : Option PositionTable) (mode : InspectionMode) (newParser : Bool) :
    Gives (inspect code minified table mode newParser) (result code minified table mode) := by
  unfold inspect result
  by_cases hmissing : minified.isSome = true ∧ table.isNone = true
  · simp only [hmissing, and_self, if_true]
    exact fun _ => rfl
  · simp only [hmissing, if_false]
    have hmeasured : ∀ program : Program, Gives
        (match minified with
          | some text => parse text >>= fun p =>
            report program p.size (Translator.ofTexts code minified table) mode
          | none => pure program >>= fun p =>
            report program p.size (Translator.ofTexts code minified table) mode)
        (measured program minified >>= fun p =>
          conclusion program p.size (Translator.ofTexts code minified table) mode) := by
      intro program
      cases minified with
      | none => exact (gives_pure program).bind fun p => gives_conclusion _ _ _ _
      | some text => exact (gives_parse text).bind fun p => gives_conclusion _ _ _ _
    have hparsed := (gives_parse code).bind hmeasured
    split
    · exact (gives_note _ _).after ((gives_note _ _).after hparsed)
    · exact (gives_note _ _).after hparsed

end Inspection

/-- A report on a parsed program without the journal. -/
theorem Inspection.result_report (program : Program) (size : Int) (translator : Translator)
    (mode : InspectionMode) :
    (report program size translator mode).run.1 = conclusion program size translator mode :=
  (gives_conclusion program size translator mode).result

/-- An inspection without its journal. -/
theorem result_inspect [SyntaxParser] (code : String) (minified : Option String)
    (table : Option PositionTable) (mode : InspectionMode) (newParser : Bool) :
    (inspect code minified table mode newParser).run.1
      = Inspection.result code minified table mode :=
  (Inspection.gives_inspect code minified table mode newParser).result

/-- The report of a parsed program is built from the ranges that its definitions occupy. -/
theorem Inspection.build_of_conclusion {program : Program} {size : Int} {t : Translator}
    {mode : InspectionMode} {r : Report} (h : conclusion program size t mode = .ok r) :
    ∃ anomalies, Report.build ((program.definitions mode.filter).filterMap t.range?) size anomalies
      = .ok r := by
  obtain ⟨⟨ranges, attributor⟩, hattribution, h⟩ := bind_eq_ok h
  obtain ⟨kept, hkept, hreturn⟩ := bind_eq_ok hattribution
  obtain ⟨rfl, -⟩ := Prod.mk.inj (Except.ok.inj hreturn)
  have hranges := Attributor.assignAll_ranges (Attributor.start_serves t mode.strict)
    (mapError_eq_ok hkept)
  exact ⟨_, hranges ▸ mapError_eq_ok h⟩

/-- A run that is not stopped ends with a report on its ranges and diagnostics. -/
theorem Inspection.conclusion_of_run {program : Program} {size : Int} {t : Translator}
    {mode : InspectionMode} {ranges : List AttributedRange} {anomalies : List Anomaly}
    (hrun : ((Attributor.start t mode.strict).assignAll (program.definitions mode.filter)).1
        = .ok ranges
      ∧ ((Attributor.start t mode.strict).assignAll
          (program.definitions mode.filter)).2.1.anomalies = anomalies) :
    conclusion program size t mode
      = (Report.build ranges size anomalies).mapError .percentage := by
  obtain ⟨hranges, hanomalies⟩ := hrun
  unfold conclusion attribution
  generalize Attributor.assignAll _ _ = run at hranges hanomalies
  obtain ⟨outcome, attributor, records⟩ := run
  obtain rfl : outcome = .ok ranges := hranges
  obtain rfl : attributor.anomalies = anomalies := hanomalies
  rfl

/-- A run that is stopped ends with what stopped it. -/
theorem Inspection.conclusion_of_stop {program : Program} {size : Int} {t : Translator}
    {mode : InspectionMode} {e : AttributionError}
    (hrun : ((Attributor.start t mode.strict).assignAll (program.definitions mode.filter)).1
      = .error e) :
    conclusion program size t mode = .error (.attribution e) := by
  unfold conclusion attribution
  generalize Attributor.assignAll _ _ = run at hrun
  obtain ⟨ranges, attributor, records⟩ := run
  obtain rfl : ranges = .error e := hrun
  rfl

/-- When every definition is kept or removed, what is kept is reported. -/
theorem Inspection.conclusion_of_settled {program : Program} {size : Int} {t : Translator}
    {mode : InspectionMode}
    (hsettled : ∀ d ∈ program.definitions mode.filter, Attributor.Settled t d) :
    conclusion program size t mode
      = (Report.build ((program.definitions mode.filter).filterMap t.range?) size []).mapError
          .percentage :=
  conclusion_of_run
    (Attributor.assignAll_of_settled (Attributor.start_serves t mode.strict) hsettled)

theorem Inspection.result_of_read [SyntaxParser] {code minified : String} {table : PositionTable}
    {mode : InspectionMode} {program measured : Program}
    (hprogram : Program.read code = .ok program)
    (hmeasured : Program.read minified = .ok measured) :
    result code (some minified) (some table) mode
      = conclusion program measured.size (Translator.ofTexts code (some minified) (some table))
          mode := by
  simp only [result, Option.isNone_some, Bool.false_eq_true, and_false, if_false, hprogram,
    Inspection.measured, hmeasured]
  rfl

/-! ## Rankings -/

theorem rank_perm (ranges : List AttributedRange) : (rank ranges).Perm ranges :=
  List.mergeSort_perm _ _

theorem line_of_entryOf {total : Int} {r : AttributedRange} {e : Entry}
    (h : entryOf total r = .ok e) :
    e.name = r.definition.name ∧ e.kind = r.definition.kind ∧ e.size = r.size := by
  obtain ⟨percentage, -, h⟩ := bind_eq_ok h
  obtain rfl := Except.ok.inj h
  exact ⟨rfl, rfl, rfl⟩

theorem lines_of_mapM_entryOf {total : Int} : ∀ {ranges : List AttributedRange}
    {entries : List Entry}, ranges.mapM (entryOf total) = .ok entries →
      entries.map (fun e => (e.name, e.kind, e.size))
        = ranges.map fun r => (r.definition.name, r.definition.kind, r.size)
  | [], _, h => by
      obtain rfl := Except.ok.inj h
      rfl
  | r :: ranges, entries, h => by
      rw [List.mapM_cons] at h
      obtain ⟨entry, hentry, h⟩ := bind_eq_ok h
      obtain ⟨rest, hrest, h⟩ := bind_eq_ok h
      obtain rfl := Except.ok.inj h
      obtain ⟨hname, hkind, hsize⟩ := line_of_entryOf hentry
      rw [List.map_cons, List.map_cons, lines_of_mapM_entryOf hrest, hname, hkind, hsize]

theorem sizes_of_mapM_entryOf {total : Int} {ranges : List AttributedRange} {entries : List Entry}
    (h : ranges.mapM (entryOf total) = .ok entries) :
    entries.map (·.size) = ranges.map AttributedRange.size := by
  have hsizes := congrArg (List.map fun line => line.2.2) (lines_of_mapM_entryOf h)
  rw [List.map_map, List.map_map] at hsizes
  exact hsizes

theorem totalSize_of_sizes : ∀ {entries : List Entry} {ranges : List AttributedRange},
    entries.map (·.size) = ranges.map AttributedRange.size → totalSize entries = occupied ranges
  | [], [], _ => rfl
  | e :: entries, r :: ranges, h => by
      obtain ⟨hsize, hrest⟩ := List.cons.inj h
      have hsize : e.size = r.size := hsize
      have hstep : totalSize (e :: entries) = e.size + totalSize entries := rfl
      rw [hstep, totalSize_of_sizes hrest, occupied, hsize]

theorem occupied_perm {ranges ranges' : List AttributedRange} (h : ranges.Perm ranges') :
    occupied ranges = occupied ranges' := by
  induction h with
  | nil => rfl
  | cons r _ ih => rw [occupied, occupied, ih]
  | swap r s ranges =>
      simp only [occupied]
      omega
  | trans _ _ ih ih' => rw [ih, ih']

namespace Report

variable {ranges : List AttributedRange} {total : Int} {anomalies : List Anomaly} {report : Report}

/-- A report is made of the entries, and given when its totals can be written. -/
theorem build_eq_ok_iff : build ranges total anomalies = .ok report
    ↔ ∃ entries, (rank ranges).mapM (entryOf total) = .ok entries
      ∧ report = ⟨entries, total, totalSize entries, anomalies⟩
      ∧ report.hasWritableTotals = true := by
  unfold build
  constructor
  · intro h
    obtain ⟨entries, hentries, h⟩ := bind_eq_ok h
    simp only at h
    split at h
    · obtain rfl := Except.ok.inj h
      exact ⟨entries, hentries, rfl, ‹_›⟩
    · cases h
  · rintro ⟨entries, hentries, rfl, hwritable⟩
    rw [hentries]
    exact if_pos hwritable

theorem fields_of_build (h : build ranges total anomalies = .ok report) :
    (rank ranges).mapM (entryOf total) = .ok report.entries ∧ report.total = total
      ∧ report.attributed = totalSize report.entries ∧ report.anomalies = anomalies := by
  obtain ⟨entries, hentries, rfl, -⟩ := build_eq_ok_iff.mp h
  exact ⟨hentries, rfl, rfl, rfl⟩

theorem writable_of_build (h : build ranges total anomalies = .ok report) :
    report.hasWritableTotals = true := by
  obtain ⟨-, -, -, hwritable⟩ := build_eq_ok_iff.mp h
  exact hwritable

/-- The lines of a report are those of the ranges, in another order. -/
theorem lines_of_build (h : build ranges total anomalies = .ok report) :
    (report.entries.map fun e => (e.name, e.kind, e.size)).Perm
      (ranges.map fun r => (r.definition.name, r.definition.kind, r.size)) := by
  rw [lines_of_mapM_entryOf (fields_of_build h).1]
  exact (rank_perm ranges).map _

/-- The sizes that are listed are those of the ranges, in another order. -/
theorem sizes_of_build (h : build ranges total anomalies = .ok report) :
    (report.entries.map (·.size)).Perm (ranges.map AttributedRange.size) := by
  rw [sizes_of_mapM_entryOf (fields_of_build h).1]
  exact (rank_perm ranges).map _

theorem attributed_of_build (h : build ranges total anomalies = .ok report) :
    report.attributed = occupied ranges := by
  obtain ⟨hentries, -, hattributed, -⟩ := fields_of_build h
  rw [hattributed, totalSize_of_sizes (sizes_of_mapM_entryOf hentries)]
  exact occupied_perm (rank_perm ranges)

/-- When every size has a percentage, the totals decide whether there is a report. -/
theorem build_of_percentages (anomalies : List Anomaly)
    (h : ∀ r ∈ ranges, ∃ percentage, Percentage.render r.size total = .ok percentage) :
    ∃ report : Report, report.attributed = occupied ranges ∧ report.total = total
      ∧ build ranges total anomalies
        = if report.hasWritableTotals then .ok report else .error .tooLong := by
  have hentries : ∀ r ∈ rank ranges, ∃ e, entryOf total r = .ok e := by
    intro r hr
    obtain ⟨percentage, hpercentage⟩ := h r ((rank_perm ranges).mem_iff.mp hr)
    exact ⟨_, by rw [entryOf, hpercentage]; rfl⟩
  obtain ⟨entries, hentries⟩ := exists_mapM hentries
  refine ⟨⟨entries, total, totalSize entries, anomalies⟩, ?_, rfl, by rw [build, hentries]; rfl⟩
  exact (totalSize_of_sizes (sizes_of_mapM_entryOf hentries)).trans
    (occupied_perm (rank_perm ranges))

theorem exists_build (anomalies : List Anomaly)
    (h : ∀ r ∈ ranges, ∃ percentage, Percentage.render r.size total = .ok percentage)
    (hattributed : Text.isWritable (occupied ranges) = true)
    (htotal : Text.isWritable total = true) :
    ∃ report, build ranges total anomalies = .ok report := by
  obtain ⟨report, hsum, hmeasured, hbuild⟩ := build_of_percentages anomalies h
  refine ⟨report, hbuild.trans (if_pos ?_)⟩
  rw [hasWritableTotals, hsum, hmeasured, hattributed, htotal]
  rfl

/-- When the totals can be written, the coverage alone decides. -/
theorem writtenTotals_eq {r : Report} (h : r.hasWritableTotals = true) :
    r.writtenTotals = r.coverage.map r.totalsLine := by
  unfold writtenTotals
  cases r.coverage with
  | error e => rfl
  | ok coverage => exact if_pos h

theorem toText_eq {r : Report} (h : r.hasWritableTotals = true) (limit : Option Int) :
    r.toText limit
      = r.coverage.map fun coverage => r.entryLines limit ++ r.totalsLine coverage ++ "\n" := by
  rw [toText, writtenTotals_eq h]
  cases r.coverage <;> rfl

theorem toRecords_eq {r : Report} (h : r.hasWritableTotals = true) {limit : Option Int}
    (hentries : (r.top limit).all isRecordable = true) (level : Level) :
    r.toRecords level limit
      = r.coverage.map fun coverage =>
        r.entryRecords level limit ++ [⟨level, r.totalsLine coverage⟩] := by
  simp only [toRecords, hentries, writtenTotals_eq h, Bool.not_true, Bool.false_eq_true, if_false]
  cases r.coverage <;> rfl

end Report

end BundleSize
