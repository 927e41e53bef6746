import BundleSize.Proofs.Coverage
import BundleSize.Proofs.Diagnostics
import BundleSize.Proofs.Ranking
import BundleSize.Proofs.Rounding

/-!
# What the mode of an inspection changes

The two choices of a mode are compared on whole runs. Nothing that a run
computes about one definition depends on the others or on the mode, so both
comparisons come down to what is done with the same two lists, the ranges and
the diagnostics of the definitions.

A strict run is a tolerant one that stops at the first diagnostic, and nothing
else (`strict_stops`). To filter the definitions is to filter the finished
report (`filtered_eq_choose`): the ranking commutes with the choice, and a line
of the report is a line about one range.

Both are about tolerant runs that end with a report. Under a table into places
that a text can have, one thing prevents it: a number that is too long to be
written, in a diagnostic or in the totals (`Inspection.tolerant_cases`). A table
may well have such a number, and then a run that tolerates an inconsistent range
fails where it reports it (`not_strict_stops`, `not_filtered_eq_choose`).
-/

namespace BundleSize

/-! ## Choosing before and after -/

theorem mapM_filter {f : α → Except ε β} {p : α → Bool} {q : β → Bool}
    (hf : ∀ a b, f a = .ok b → q b = p a) : ∀ {l : List α} {bs : List β},
      l.mapM f = .ok bs → (l.filter p).mapM f = .ok (bs.filter q)
  | [], _, h => by
      obtain rfl := Except.ok.inj h
      rfl
  | a :: l, bs, h => by
      rw [List.mapM_cons] at h
      obtain ⟨b, hb, h⟩ := bind_eq_ok h
      obtain ⟨rest, hrest, h⟩ := bind_eq_ok h
      obtain rfl := Except.ok.inj h
      have hsame := hf a b hb
      by_cases hp : p a = true
      · rw [List.filter_cons_of_pos hp, List.filter_cons_of_pos (hsame.trans hp), List.mapM_cons,
          hb, mapM_filter hf hrest]
        rfl
      · rw [List.filter_cons_of_neg hp, List.filter_cons_of_neg (by rwa [hsame]),
          mapM_filter hf hrest]

theorem filterMap_filter {f : α → Option β} {p : α → Bool} {q : β → Bool}
    (hf : ∀ a b, f a = some b → q b = p a) (l : List α) :
    (l.filter p).filterMap f = (l.filterMap f).filter q := by
  rw [List.filterMap_filter, List.filter_filterMap]
  refine List.filterMap_congr fun a _ => ?_
  cases hfa : f a with
  | none => simp
  | some b => simp [Option.filter, hf a b hfa]

/-! ## Reports -/

theorem totalSize_eq_sum (entries : List Entry) :
    totalSize entries = (entries.map (·.size)).sum := by
  simp [totalSize, List.sum, List.foldr_map]

namespace Report

/-- The part of a report that is about names which a filter keeps. -/
def choose (r : Report) (filter : NameFilter) : Report :=
  let entries := r.entries.filter fun e => filter.keeps e.name
  { entries
    total := r.total
    attributed := (entries.map (·.size)).sum
    anomalies := r.anomalies.filter fun a => filter.keeps a.name }

variable {ranges : List AttributedRange} {total : Int} {anomalies : List Anomaly}

theorem nonneg_of_build {report : Report} (h : build ranges total anomalies = .ok report)
    (hsizes : ∀ r ∈ ranges, 0 ≤ r.size) : ∀ e ∈ report.entries, 0 ≤ e.size := by
  intro e he
  have hsize := (sizes_of_build h).mem_iff.mp (List.mem_map_of_mem he)
  obtain ⟨r, hr, hsize⟩ := List.mem_map.mp hsize
  rw [← hsize]
  exact hsizes r hr

/-- A part of a report whose sizes are not negative has smaller totals. -/
theorem choose_writable {report : Report} (filter : NameFilter)
    (h : build ranges total anomalies = .ok report) (hsizes : ∀ r ∈ ranges, 0 ≤ r.size) :
    (report.choose filter).hasWritableTotals = true := by
  have hwritable := writable_of_build h
  rw [hasWritableTotals, Bool.and_eq_true, (fields_of_build h).2.2.1, totalSize_eq_sum] at hwritable
  have hentries := nonneg_of_build h hsizes
  have hsublist : ((report.entries.filter fun e => filter.keeps e.name).map (·.size)).Sublist
      (report.entries.map (·.size)) :=
    List.filter_sublist.map _
  refine Bool.and_eq_true_iff.mpr ⟨Text.isWritable_of_le ?_ ?_ hwritable.1, hwritable.2⟩
  · refine List.sum_nonneg fun size hsize => ?_
    obtain ⟨e, he, rfl⟩ := List.mem_map.mp hsize
    exact hentries e (List.mem_filter.mp he).1
  · refine hsublist.sum_le_sum fun size hsize => ?_
    obtain ⟨e, he, rfl⟩ := List.mem_map.mp hsize
    exact hentries e he

theorem build_filter {report : Report} (filter : NameFilter)
    (h : build ranges total anomalies = .ok report) (hsizes : ∀ r ∈ ranges, 0 ≤ r.size) :
    build (ranges.filter fun r => filter.keeps r.definition.name) total
      (anomalies.filter fun a => filter.keeps a.name) = .ok (report.choose filter) := by
  obtain ⟨hentries, htotal, -, hanomalies⟩ := fields_of_build h
  have hname : ∀ r e, entryOf total r = .ok e →
      filter.keeps e.name = filter.keeps r.definition.name :=
    fun r e he => by rw [(line_of_entryOf he).1]
  have hchosen := mapM_filter (p := fun r => filter.keeps r.definition.name)
    (q := fun e => filter.keeps e.name) hname hentries
  refine build_eq_ok_iff.mpr ⟨_, by rw [rank_filter]; exact hchosen, ?_,
    choose_writable filter h hsizes⟩
  rw [choose, ← totalSize_eq_sum, htotal, hanomalies]

end Report

/-! ## Runs that end -/

theorem Anomaly.hasWritableRanges_of_isWritable {a : Anomaly} (h : a.isWritable = true) :
    a.hasWritableRanges = true := by
  simp only [isWritable, toJson, Json.isWritable, Json.membersAreWritable, Json.areWritable,
    Bool.and_eq_true, Bool.and_true, Bool.true_and] at h
  simp [hasWritableRanges, h.1, h.2.1]

namespace Inspection

variable {t : Translator} {table : PositionTable}

/-- Nothing that a tolerant run over the definitions writes has a number that is too long. -/
structure Reportable (t : Translator) (ds : List Definition) (size : Int) : Prop where
  anomalies : ∀ anomaly ∈ ds.filterMap t.anomaly?, anomaly.isWritable = true
  attributed : Text.isWritable (occupied (ds.filterMap t.range?)) = true
  total : Text.isWritable size = true

/-- The failure is that of a number which is too long. -/
inductive Unwritten : AnalysisError → Prop where
  | diagnostic {anomaly : Anomaly} (h : anomaly.isWritable = false) :
      Unwritten (.attribution (.unwritable anomaly))
  | totals : Unwritten (.percentage .tooLong)

theorem Unwritten.told {e : AnalysisError} (h : Unwritten e) :
    e.kind = "ValueError" ∧ e.message = Text.tooLongMessage := by
  cases h <;> exact ⟨rfl, rfl⟩

theorem percentages_of_proper (ht : t.table = some table)
    (hproper : ∀ p q, table.Sends p q → q.Proper) (hlength : t.minified.length < 2 ^ 1023)
    (ds : List Definition) (size : Int) : ∀ r ∈ ds.filterMap t.range?,
      ∃ percentage, Percentage.render r.size size = .ok percentage := by
  intro r hr
  obtain ⟨d, -, hd⟩ := List.mem_filterMap.mp hr
  obtain ⟨hnonneg, hle⟩ := Translator.size_of_proper ht hproper hd
  exact Percentage.exists_render size (by omega)

/-- Under a table into lines and columns that a text can have, a run that is not strict ends with a
report on all ranges and all diagnostics, or with a number that is too long. -/
theorem tolerant_cases (ht : t.table = some table)
    (hproper : ∀ p q, table.Sends p q → q.Proper) (hlength : t.minified.length < 2 ^ 1023)
    (program : Program) (size : Int) (mode : InspectionMode) (hmode : mode.strict = false) :
    (∃ report, conclusion program size t mode = .ok report
        ∧ Report.build ((program.definitions mode.filter).filterMap t.range?) size
          ((program.definitions mode.filter).filterMap t.anomaly?) = .ok report
        ∧ Reportable t (program.definitions mode.filter) size)
      ∨ ∃ e, conclusion program size t mode = .error e ∧ Unwritten e
        ∧ ¬Reportable t (program.definitions mode.filter) size := by
  have hdecides : ∀ d ∈ program.definitions mode.filter, t.Decides d :=
    fun d _ => Translator.decides_of_proper ht hproper d
  cases hfirst : ((program.definitions mode.filter).filterMap t.anomaly?).find?
      (fun found => !found.isWritable) with
  | some anomaly =>
      have hlong : anomaly.isWritable = false := by simpa using List.find?_some hfirst
      refine .inr ⟨_, conclusion_of_unwritable hmode hdecides hfirst, .diagnostic hlong, ?_⟩
      intro h
      rw [h.anomalies anomaly (List.mem_of_find?_eq_some hfirst)] at hlong
      cases hlong
  | none =>
      have hwritable : ∀ anomaly ∈ (program.definitions mode.filter).filterMap t.anomaly?,
          anomaly.isWritable = true := by
        simpa using List.find?_eq_none.mp hfirst
      obtain ⟨report, hsum, htotal, hbuild⟩ := Report.build_of_percentages
        ((program.definitions mode.filter).filterMap t.anomaly?)
        (percentages_of_proper ht hproper hlength (program.definitions mode.filter) size)
      rw [conclusion_of_tolerant hmode hdecides hwritable, hbuild]
      cases htotals : report.hasWritableTotals with
      | true =>
          rw [Report.hasWritableTotals, hsum, htotal, Bool.and_eq_true] at htotals
          exact .inl ⟨report, rfl, rfl, hwritable, htotals.1, htotals.2⟩
      | false =>
          refine .inr ⟨_, rfl, .totals, fun h => ?_⟩
          rw [Report.hasWritableTotals, hsum, htotal, h.attributed, h.total] at htotals
          cases htotals

/-- A tolerant run reports exactly if it has nothing to write that is too long. -/
theorem exists_conclusion_iff (ht : t.table = some table)
    (hproper : ∀ p q, table.Sends p q → q.Proper) (hlength : t.minified.length < 2 ^ 1023)
    (program : Program) (size : Int) (mode : InspectionMode) (hmode : mode.strict = false) :
    (∃ report, conclusion program size t mode = .ok report)
      ↔ Reportable t (program.definitions mode.filter) size := by
  rcases tolerant_cases ht hproper hlength program size mode hmode with
    ⟨report, hreport, -, hwritable⟩ | ⟨e, he, -, hlong⟩
  · exact ⟨fun _ => hwritable, fun _ => ⟨report, hreport⟩⟩
  · rw [he]
    exact ⟨fun ⟨_, h⟩ => (nomatch h), fun h => absurd h hlong⟩

/-- The mode has no say in whether the two texts parse. -/
theorem result_cases [SyntaxParser] (code minified : String) (table : PositionTable) :
    (∃ e, ∀ mode, result code (some minified) (some table) mode = .error (.unparsable e))
      ∨ ∃ program measured : Program, ∀ mode, result code (some minified) (some table) mode
          = conclusion program measured.size
              (Translator.ofTexts code (some minified) (some table)) mode := by
  cases hprogram : Program.read code with
  | error e =>
      refine .inl ⟨e, fun mode => ?_⟩
      simp only [result, Option.isNone_some, Bool.false_eq_true, and_false, if_false, hprogram]
      rfl
  | ok program =>
      cases hmeasured : Program.read minified with
      | error e =>
          refine .inl ⟨e, fun mode => ?_⟩
          simp only [result, Option.isNone_some, Bool.false_eq_true, and_false, if_false,
            hprogram, measured, hmeasured]
          rfl
      | ok measured => exact .inr ⟨program, measured, fun mode => result_of_read hprogram hmeasured⟩

/-- What relates the reports on parsed programs in two modes relates the inspections of texts. -/
theorem inspect_relates [SyntaxParser]
    {R : Except AnalysisError Report → Except AnalysisError Report → Prop}
    {code minified : String} {mode mode' : InspectionMode}
    (hunparsable : ∀ e, R (.error (.unparsable e)) (.error (.unparsable e)))
    (hconclusion : ∀ (program : Program) (size : Int), R
      (conclusion program size (.ofTexts code (some minified) (some table)) mode)
      (conclusion program size (.ofTexts code (some minified) (some table)) mode'))
    (newParser : Bool) :
    R (inspect code (some minified) (some table) mode newParser).run.1
      (inspect code (some minified) (some table) mode' newParser).run.1 := by
  rw [result_inspect, result_inspect]
  rcases result_cases code minified table with ⟨e, he⟩ | ⟨program, measured, hboth⟩
  · rw [he, he]
    exact hunparsable e
  · rw [hboth, hboth]
    exact hconclusion program measured.size

end Inspection

/-! ## Strict runs -/

/-- Where the tolerant run reports an anomaly, the strict one stops, with the first that is
reported. Where it reports none, both report the same. Where it fails, the strict run fails
likewise, unless it has stopped at an anomaly before the number that the tolerant run could not
write. -/
structure StopsAtAnomaly (strict tolerant : Except AnalysisError Report) : Prop where
  stops_iff : ∀ report, tolerant = .ok report → ∀ anomaly,
    strict = .error (.attribution (.inconsistent anomaly)) ↔ report.anomalies.head? = some anomaly
  stops_kind : ∀ report e, tolerant = .ok report → strict = .error e →
    e.kind = "InconsistentRangeError"
  same_report : ∀ report, tolerant = .ok report → report.anomalies = [] → strict = .ok report
  failure : ∀ e, tolerant = .error e → strict = .error e
    ∨ Inspection.Unwritten e ∧ ∃ anomaly, strict = .error (.attribution (.inconsistent anomaly))

namespace StopsAtAnomaly

theorem of_failure (e : AnalysisError) : StopsAtAnomaly (.error e) (.error e) where
  stops_iff _ hreport := nomatch hreport
  stops_kind _ _ hreport := nomatch hreport
  same_report _ hreport := nomatch hreport
  failure _ he := .inl he

theorem of_unwritten {e : AnalysisError} (h : Inspection.Unwritten e) (anomaly : Anomaly) :
    StopsAtAnomaly (.error (.attribution (.inconsistent anomaly))) (.error e) where
  stops_iff _ hreport := nomatch hreport
  stops_kind _ _ hreport := nomatch hreport
  same_report _ hreport := nomatch hreport
  failure e' he := by
    obtain rfl := Except.error.inj he
    exact .inr ⟨h, anomaly, rfl⟩

theorem of_consistent {report : Report} (h : report.anomalies = []) :
    StopsAtAnomaly (.ok report) (.ok report) where
  stops_iff found hfound anomaly := by
    obtain rfl := Except.ok.inj hfound
    rw [h]
    exact ⟨fun hstop => (nomatch hstop), fun hhead => (nomatch hhead)⟩
  stops_kind _ _ _ he := nomatch he
  same_report _ hfound _ := hfound
  failure _ he := nomatch he

theorem of_first {report : Report} {anomaly : Anomaly} (h : report.anomalies.head? = some anomaly)
    (hwritable : anomaly.isWritable = true) :
    StopsAtAnomaly (.error (.attribution (.inconsistent anomaly))) (.ok report) where
  stops_iff found hfound other := by
    obtain rfl := Except.ok.inj hfound
    rw [h, Option.some.injEq, Except.error.injEq, AnalysisError.attribution.injEq,
      AttributionError.inconsistent.injEq]
  stops_kind found e hfound he := by
    obtain rfl := Except.error.inj he
    exact if_pos (Anomaly.hasWritableRanges_of_isWritable hwritable)
  same_report found hfound hnone := by
    obtain rfl := Except.ok.inj hfound
    rw [hnone] at h
    cases h
  failure _ he := nomatch he

end StopsAtAnomaly

theorem Inspection.conclusion_stops {t : Translator} {table : PositionTable}
    (ht : t.table = some table) (hproper : ∀ p q, table.Sends p q → q.Proper)
    (hlength : t.minified.length < 2 ^ 1023) (program : Program) (size : Int)
    (filter : NameFilter) :
    StopsAtAnomaly (conclusion program size t { filter, strict := true })
      (conclusion program size t { filter, strict := false }) := by
  have hdecides : ∀ d ∈ program.definitions filter, t.Decides d :=
    fun d _ => Translator.decides_of_proper ht hproper d
  have hcases := tolerant_cases ht hproper hlength program size { filter, strict := false } rfl
  cases hlist : (program.definitions filter).filterMap t.anomaly? with
  | nil =>
      have htolerant : conclusion program size t { filter, strict := false } = _ :=
        conclusion_of_consistent hdecides hlist
      have hsame : conclusion program size t { filter, strict := true }
          = conclusion program size t { filter, strict := false } :=
        (conclusion_of_consistent hdecides hlist).trans htolerant.symm
      rw [hsame]
      rcases hcases with ⟨report, hreport, hbuild, -⟩ | ⟨e, he, -, -⟩
      · rw [hreport]
        exact .of_consistent ((Report.fields_of_build hbuild).2.2.2.trans hlist)
      · rw [he]
        exact .of_failure e
  | cons anomaly rest =>
      rw [conclusion_of_strict rfl hdecides hlist]
      rcases hcases with ⟨report, hreport, hbuild, hwritable⟩ | ⟨e, he, hlong, -⟩
      · have hanomalies := (Report.fields_of_build hbuild).2.2.2.trans hlist
        rw [hreport]
        refine .of_first (by rw [hanomalies]; rfl) (hwritable.anomalies anomaly ?_)
        rw [hlist]
        exact List.mem_cons_self ..
      · rw [he]
        exact .of_unwritten hlong anomaly

/-- **A strict run is a tolerant one up to the first anomaly.** Let the table lead into lines and
columns that a text can have. Whatever programs the texts are parsed to, where the tolerant run
reports, the strict run stops exactly if an anomaly is reported, with the first in that report, and
otherwise both report the same. The tolerant run reports exactly if it has no number to write that
is too long, in a diagnostic or in the totals. The length matters to the percentages of a report
only, which have to be in the range of double precision; no text in memory is that long. -/
theorem strict_stops (code minified : String) {table : PositionTable} (filter : NameFilter)
    (hproper : ∀ p q, table.Sends p q → q.Proper) (hlength : minified.length < 2 ^ 1023) :
    (∀ program measured : Program,
      StopsAtAnomaly
        (Inspection.report program measured.size
          (.ofTexts code (some minified) (some table)) { filter, strict := true }).run.1
        (Inspection.report program measured.size
          (.ofTexts code (some minified) (some table)) { filter, strict := false }).run.1
      ∧ ((∃ report, (Inspection.report program measured.size
          (.ofTexts code (some minified) (some table)) { filter, strict := false }).run.1
            = .ok report)
        ↔ Inspection.Reportable (.ofTexts code (some minified) (some table))
          (program.definitions filter) measured.size))
      ∧ ∀ [SyntaxParser] (newParser : Bool), StopsAtAnomaly
        (inspect code (some minified) (some table) { filter, strict := true } newParser).run.1
        (inspect code (some minified) (some table) { filter, strict := false }
          newParser).run.1 := by
  have hstops : ∀ (program : Program) (size : Int), StopsAtAnomaly
      (Inspection.conclusion program size (.ofTexts code (some minified) (some table))
        { filter, strict := true })
      (Inspection.conclusion program size (.ofTexts code (some minified) (some table))
        { filter, strict := false }) :=
    fun program size => Inspection.conclusion_stops rfl hproper hlength program size filter
  constructor
  · intro program measured
    rw [Inspection.result_report, Inspection.result_report]
    exact ⟨hstops program measured.size,
      Inspection.exists_conclusion_iff rfl hproper hlength program measured.size _ rfl⟩
  · intro _ newParser
    exact Inspection.inspect_relates (fun e => .of_failure _) hstops newParser

/-- The last character of the first variable goes to the line before that of its name. -/
def crossed : PositionTable :=
  .ofMappings
    [⟨⟨2, 0⟩, some (.string "0"), some ⟨1, 16⟩, none⟩,
      ⟨⟨1, 0⟩, some (.string "0"), some ⟨1, 18⟩, none⟩,
      ⟨⟨2, 0⟩, some (.string "0"), some ⟨1, 24⟩, none⟩,
      ⟨⟨2, 0⟩, some (.string "0"), some ⟨1, 26⟩, none⟩] none

theorem crossed_proper : ∀ p q, crossed.Sends p q → q.Proper :=
  PositionTable.forall_sends.mpr (by decide)

theorem read_twoLines : ∃ measured, Program.read "a;\nb;" = .ok measured ∧ measured.size = 5 := by
  have hread : (Program.read "a;\nb;").map Program.size = .ok 5 := by decide +kernel
  exact map_eq_ok hread

/-- One of the two variables is inconsistent, and its diagnostic can be written. -/
theorem anomalies_crossed {program : Program}
    (hdefinitions : program.definitions [] = [⟨"a", .binding, 16, 19⟩, ⟨"b", .binding, 24, 27⟩]) :
    ∃ anomaly, (program.definitions []).filterMap
        (Translator.ofTexts twoVariables (some "a;\nb;") (some crossed)).anomaly? = [anomaly]
      ∧ anomaly.name = "a" ∧ anomaly.isWritable = true := by
  have hfirst : ((Translator.ofTexts twoVariables (some "a;\nb;") (some crossed)).anomaly?
      ⟨"a", .binding, 16, 19⟩).any Anomaly.isWritable = true := by cbv
  obtain ⟨anomaly, hanomaly, hwritable⟩ := (Option.any_eq_true _ _).mp hfirst
  have hsecond : (Translator.ofTexts twoVariables (some "a;\nb;") (some crossed)).anomaly?
      ⟨"b", .binding, 24, 27⟩ = none := by cbv
  refine ⟨anomaly, ?_, Translator.name_of_anomaly? hanomaly, hwritable⟩
  rw [hdefinitions, List.filterMap_cons_some hanomaly, List.filterMap_cons_none hsecond,
    List.filterMap_nil]

theorem reportable_crossed {program : Program}
    (hdefinitions : program.definitions [] = [⟨"a", .binding, 16, 19⟩, ⟨"b", .binding, 24, 27⟩]) :
    Inspection.Reportable (.ofTexts twoVariables (some "a;\nb;") (some crossed))
      (program.definitions []) 5 where
  anomalies := by
    obtain ⟨anomaly, hanomalies, -, hwritable⟩ := anomalies_crossed hdefinitions
    rw [hanomalies]
    exact List.forall_mem_singleton.mpr hwritable
  attributed := by
    rw [hdefinitions]
    cbv
  total := by decide

theorem strict_stops_crossed : ∃ report anomaly,
    (inspect twoVariables (some "a;\nb;") (some crossed) { strict := false } true).run.1
        = .ok report
      ∧ report.anomalies.head? = some anomaly ∧ anomaly.name = "a"
      ∧ (inspect twoVariables (some "a;\nb;") (some crossed) { strict := true } true).run.1
        = .error (.attribution (.inconsistent anomaly)) := by
  obtain ⟨program, hprogram, hdefinitions⟩ := read_twoVariables
  obtain ⟨measured, hmeasured, hsize⟩ := read_twoLines
  obtain ⟨anomaly, hanomalies, hname, -⟩ := anomalies_crossed hdefinitions
  have hlength : "a;\nb;".length < 2 ^ 1023 := by decide +kernel
  obtain ⟨hreports, hstops⟩ := strict_stops twoVariables "a;\nb;" [] crossed_proper hlength
  obtain ⟨report, hreport⟩ :=
    (hreports program measured).2.mpr (hsize ▸ reportable_crossed hdefinitions)
  have htolerant : (inspect twoVariables (some "a;\nb;") (some crossed) { strict := false }
      true).run.1 = .ok report := by
    rw [result_inspect, Inspection.result_of_read hprogram hmeasured, ← Inspection.result_report]
    exact hreport
  have hstop : (inspect twoVariables (some "a;\nb;") (some crossed) { strict := true } true).run.1
      = .error (.attribution (.inconsistent anomaly)) := by
    rw [result_inspect, Inspection.result_of_read hprogram hmeasured]
    exact Inspection.conclusion_of_strict rfl
      (fun d _ => Translator.decides_of_proper rfl crossed_proper d) hanomalies
  exact ⟨report, anomaly, htolerant,
    ((hstops true).stops_iff report htolerant anomaly).mp hstop, hname, hstop⟩

/-- The name of the first variable goes to a column with more digits than can be written. -/
def farName : Mapping :=
  ⟨⟨2, (10 ^ Text.maxDigits : Nat)⟩, some (.string "0"), some ⟨1, 16⟩, none⟩

/-- The last character of the first variable goes to the line before. -/
def nearEnd : Mapping := ⟨⟨1, 0⟩, some (.string "0"), some ⟨1, 18⟩, none⟩

theorem mergeSort_pair {α : Type} (le : α → α → Bool) (a b : α) :
    [a, b].mergeSort le = if le a b then [a, b] else [b, a] := by
  simp [List.mergeSort, List.MergeSort.Internal.splitInTwo, List.merge]

/-- The table of these two mappings, with its indexes written out. -/
def crossedFar : PositionTable where
  mappings := [farName, nearEnd]
  source := some (.string "0")
  byGenerated := #[nearEnd, farName]
  bySource := #[⟨⟨1, 16⟩, farName⟩, ⟨⟨1, 18⟩, nearEnd⟩]
  byGenerated_eq := by rw [mergeSort_pair, if_neg (by decide +kernel)]
  bySource_eq := by
    have hanchors : [farName, nearEnd].filterMap (Mapping.anchor? (some (.string "0")))
        = [⟨⟨1, 16⟩, farName⟩, ⟨⟨1, 18⟩, nearEnd⟩] := by
      have hname : farName.anchor? (some (.string "0")) = some ⟨⟨1, 16⟩, farName⟩ :=
        PositionTable.anchor?_eq_some.mpr ⟨_, rfl, rfl, rfl, rfl⟩
      have hend : nearEnd.anchor? (some (.string "0")) = some ⟨⟨1, 18⟩, nearEnd⟩ :=
        PositionTable.anchor?_eq_some.mpr ⟨_, rfl, rfl, rfl, rfl⟩
      rw [List.filterMap_cons_some hname, List.filterMap_cons_some hend, List.filterMap_nil]
    rw [anchors, hanchors, mergeSort_pair, if_pos (by decide +kernel)]

theorem crossedFar_proper : ∀ p q, crossedFar.Sends p q → q.Proper :=
  PositionTable.forall_sends.mpr (by decide +kernel)

/-- The first variable is inconsistent, with a diagnostic that cannot be written, and the second one
is removed. -/
theorem anomaly?_crossedFar : ∃ anomaly, anomaly.isWritable = false
    ∧ anomaly.hasWritableRanges = true
    ∧ (Translator.ofTexts twoVariables (some "a;\nb;") (some crossedFar)).anomaly?
      ⟨"a", .binding, 16, 19⟩ = some anomaly
    ∧ (Translator.ofTexts twoVariables (some "a;\nb;") (some crossedFar)).anomaly?
      ⟨"b", .binding, 24, 27⟩ = none := by
  have hfirst : ((Translator.ofTexts twoVariables (some "a;\nb;") (some crossedFar)).anomaly?
      ⟨"a", .binding, 16, 19⟩).any (fun a => !a.isWritable && a.hasWritableRanges) = true := by
    decide +kernel
  obtain ⟨anomaly, hanomaly, htold⟩ := (Option.any_eq_true _ _).mp hfirst
  rw [Bool.and_eq_true, Bool.not_eq_true'] at htold
  exact ⟨anomaly, htold.1, htold.2, hanomaly, by decide +kernel⟩

/-- A tolerant run that meets with such a diagnostic has no report. -/
theorem Inspection.unreported {code minified : String} {table : PositionTable} {filter : NameFilter}
    {program measured : Program} {anomaly : Anomaly} {rest : List Anomaly}
    (hprogram : Program.read code = .ok program) (hmeasured : Program.read minified = .ok measured)
    (hproper : ∀ p q, table.Sends p q → q.Proper)
    (hanomalies : (program.definitions filter).filterMap
      (Translator.ofTexts code (some minified) (some table)).anomaly? = anomaly :: rest)
    (hlong : anomaly.isWritable = false) (newParser : Bool) :
    (inspect code (some minified) (some table) { filter } newParser).run.1
      = .error (.attribution (.unwritable anomaly)) := by
  rw [result_inspect, result_of_read hprogram hmeasured]
  refine conclusion_of_unwritable rfl (fun d _ => Translator.decides_of_proper rfl hproper d) ?_
  rw [hanomalies, List.find?_cons_of_pos (by simp [hlong])]

/-- A strict run may stop at an anomaly that no tolerant run reports. -/
theorem not_strict_stops :
    ¬∀ [SyntaxParser] (code minified : String) (table : PositionTable) (filter : NameFilter)
      (newParser : Bool), (∀ p q, table.Sends p q → q.Proper) → minified.length < 2 ^ 1023 →
      ∀ e, (inspect code (some minified) (some table) { filter, strict := true } newParser).run.1
        = .error e → e.kind = "InconsistentRangeError" →
          ∃ report, (inspect code (some minified) (some table) { filter, strict := false }
            newParser).run.1 = .ok report := by
  intro hstops
  obtain ⟨program, hprogram, hdefinitions⟩ := read_twoVariables
  obtain ⟨measured, hmeasured, -⟩ := read_twoLines
  obtain ⟨anomaly, hlong, hranges, hfirst, hsecond⟩ := anomaly?_crossedFar
  have hanomalies : (program.definitions []).filterMap
      (Translator.ofTexts twoVariables (some "a;\nb;") (some crossedFar)).anomaly? = [anomaly] := by
    rw [hdefinitions, List.filterMap_cons_some hfirst, List.filterMap_cons_none hsecond,
      List.filterMap_nil]
  have hstop : (inspect twoVariables (some "a;\nb;") (some crossedFar) { strict := true }
      true).run.1 = .error (.attribution (.inconsistent anomaly)) := by
    rw [result_inspect, Inspection.result_of_read hprogram hmeasured]
    exact Inspection.conclusion_of_strict rfl
      (fun d _ => Translator.decides_of_proper rfl crossedFar_proper d) hanomalies
  obtain ⟨report, hreport⟩ := hstops twoVariables "a;\nb;" crossedFar [] true crossedFar_proper
    (by decide +kernel) _ hstop (if_pos hranges)
  rw [Inspection.unreported hprogram hmeasured crossedFar_proper hanomalies hlong] at hreport
  cases hreport

/-! ## Filtered runs -/

theorem Program.definitions_nil (p : Program) : p.definitions [] = p.allDefinitions :=
  List.filter_eq_self.mpr fun _ _ => rfl

theorem Inspection.conclusion_choose {t : Translator} {table : PositionTable}
    (ht : t.table = some table) (hproper : ∀ p q, table.Sends p q → q.Proper)
    (hlength : t.minified.length < 2 ^ 1023) {program : Program} {size : Int} {whole : Report}
    (hwhole : conclusion program size t {} = .ok whole) (filter : NameFilter) :
    conclusion program size t { filter } = .ok (whole.choose filter) := by
  rcases tolerant_cases ht hproper hlength program size {} rfl with
    ⟨report, hreport, hbuild, hwritable⟩ | ⟨e, he, -, -⟩
  · obtain rfl := Except.ok.inj (hwhole.symm.trans hreport)
    have hsizes : ∀ r ∈ (program.definitions []).filterMap t.range?, 0 ≤ r.size := by
      intro r hr
      obtain ⟨d, -, hd⟩ := List.mem_filterMap.mp hr
      exact (Translator.size_of_proper ht hproper hd).1
    have hchosen := Report.build_filter filter hbuild hsizes
    rw [Program.definitions_nil] at hchosen
    have hranges : (program.definitions filter).filterMap t.range?
        = (program.allDefinitions.filterMap t.range?).filter
            fun r => filter.keeps r.definition.name := by
      refine filterMap_filter (fun d r hr => ?_) program.allDefinitions
      rw [(Translator.ends_of_kept (Translator.outcome_of_range? hr)).2.2.1]
    have hanomalies : (program.definitions filter).filterMap t.anomaly?
        = (program.allDefinitions.filterMap t.anomaly?).filter fun a => filter.keeps a.name := by
      refine filterMap_filter (fun d a ha => ?_) program.allDefinitions
      rw [Translator.name_of_anomaly? ha]
    have hshort : ∀ anomaly ∈ (program.definitions filter).filterMap t.anomaly?,
        anomaly.isWritable = true := by
      rw [hanomalies, ← Program.definitions_nil]
      exact fun anomaly hmem => hwritable.anomalies anomaly (List.mem_filter.mp hmem).1
    rw [conclusion_of_tolerant rfl (fun d _ => Translator.decides_of_proper ht hproper d) hshort,
      hranges, hanomalies, hchosen]
    rfl
  · cases hwhole.symm.trans he

/-- **Filtering the definitions filters the report.** Let the table lead into lines and columns that
a text can have. Whatever programs the texts are parsed to, if the run on all definitions reports,
the run on those that a filter keeps reports what that report says about those names: the same lines
and diagnostics in the same order, and the same total. Each of the two runs reports exactly if it
has no number to write that is too long. The length is that of `strict_stops`. -/
theorem filtered_eq_choose (code minified : String) {table : PositionTable} (filter : NameFilter)
    (hproper : ∀ p q, table.Sends p q → q.Proper) (hlength : minified.length < 2 ^ 1023) :
    (∀ program measured : Program,
      (∀ whole, (Inspection.report program measured.size
          (.ofTexts code (some minified) (some table)) {}).run.1 = .ok whole →
        (Inspection.report program measured.size
          (.ofTexts code (some minified) (some table)) { filter }).run.1
            = .ok (whole.choose filter))
      ∧ ∀ conditions : NameFilter, (∃ report, (Inspection.report program measured.size
          (.ofTexts code (some minified) (some table)) { filter := conditions }).run.1 = .ok report)
        ↔ Inspection.Reportable (.ofTexts code (some minified) (some table))
          (program.definitions conditions) measured.size)
      ∧ ∀ [SyntaxParser] (newParser : Bool) (whole : Report),
        (inspect code (some minified) (some table) {} newParser).run.1 = .ok whole →
          (inspect code (some minified) (some table) { filter } newParser).run.1
            = .ok (whole.choose filter) := by
  constructor
  · intro program measured
    simp only [Inspection.result_report]
    exact ⟨fun whole hwhole => Inspection.conclusion_choose rfl hproper hlength hwhole filter,
      fun conditions => Inspection.exists_conclusion_iff rfl hproper hlength program measured.size
        { filter := conditions } rfl⟩
  · intro _ newParser
    let chosen : Except AnalysisError Report → Except AnalysisError Report → Prop :=
      fun filtered reported => ∀ whole, reported = .ok whole → filtered = .ok (whole.choose filter)
    exact Inspection.inspect_relates (R := chosen) (fun e whole hwhole => nomatch hwhole)
      (fun program size whole hwhole =>
        Inspection.conclusion_choose rfl hproper hlength hwhole filter) newParser

theorem filtered_eq_choose_crossed : ∃ whole : Report,
    (inspect twoVariables (some "a;\nb;") (some crossed) {} true).run.1 = .ok whole
      ∧ whole.anomalies.map (·.name) = ["a"]
      ∧ (inspect twoVariables (some "a;\nb;") (some crossed) { filter := [.marker "b"] } true).run.1
        = .ok (whole.choose [.marker "b"])
      ∧ (whole.choose [.marker "b"]).anomalies = [] := by
  obtain ⟨program, hprogram, hdefinitions⟩ := read_twoVariables
  obtain ⟨measured, hmeasured, hsize⟩ := read_twoLines
  obtain ⟨anomaly, hanomalies, hname, hwritable⟩ := anomalies_crossed hdefinitions
  have hlength : "a;\nb;".length < 2 ^ 1023 := by decide +kernel
  obtain ⟨-, hfiltered⟩ :=
    filtered_eq_choose twoVariables "a;\nb;" [.marker "b"] crossed_proper hlength
  rcases Inspection.tolerant_cases (t := .ofTexts twoVariables (some "a;\nb;") (some crossed)) rfl
    crossed_proper hlength program measured.size {} rfl with
    ⟨whole, hwhole, hbuild, -⟩ | ⟨e, -, -, hlong⟩
  · have hinspect : (inspect twoVariables (some "a;\nb;") (some crossed) {} true).run.1
        = .ok whole := by
      rw [result_inspect, Inspection.result_of_read hprogram hmeasured, hwhole]
    have hreported : whole.anomalies = [anomaly] :=
      (Report.fields_of_build hbuild).2.2.2.trans hanomalies
    refine ⟨whole, hinspect, ?_, hfiltered true whole hinspect, ?_⟩
    · rw [hreported, List.map_singleton, hname]
    · rw [Report.choose, hreported, List.filter_cons_of_neg (by rw [hname]; decide),
        List.filter_nil]
  · rw [hsize] at hlong
    exact absurd (reportable_crossed hdefinitions) hlong

/-- A run on the definitions that a filter keeps may have no report, though both texts parse. -/
theorem not_filtered_eq_choose :
    ¬∀ [SyntaxParser] (code minified : String) (table : PositionTable) (filter : NameFilter)
      (newParser : Bool) (program measured : Program), (∀ p q, table.Sends p q → q.Proper) →
      minified.length < 2 ^ 1023 → Program.read code = .ok program →
      Program.read minified = .ok measured →
        ∃ report, (inspect code (some minified) (some table) { filter } newParser).run.1
          = .ok report := by
  intro hreports
  obtain ⟨program, hprogram, hdefinitions⟩ := read_twoVariables
  obtain ⟨measured, hmeasured, -⟩ := read_twoLines
  obtain ⟨anomaly, hlong, -, hfirst, -⟩ := anomaly?_crossedFar
  have hkept : program.definitions [.marker "a"] = [⟨"a", .binding, 16, 19⟩] := by
    rw [Program.definitions, ← Program.definitions_nil, hdefinitions]
    decide
  have hanomalies : (program.definitions [.marker "a"]).filterMap
      (Translator.ofTexts twoVariables (some "a;\nb;") (some crossedFar)).anomaly? = [anomaly] := by
    rw [hkept, List.filterMap_cons_some hfirst, List.filterMap_nil]
  obtain ⟨report, hreport⟩ := hreports twoVariables "a;\nb;" crossedFar [.marker "a"] true program
    measured crossedFar_proper (by decide +kernel) hprogram hmeasured
  rw [Inspection.unreported hprogram hmeasured crossedFar_proper hanomalies hlong] at hreport
  cases hreport

end BundleSize
