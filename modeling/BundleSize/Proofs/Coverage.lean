import BundleSize.Proofs.RangeOrder
import BundleSize.Proofs.Reports
import BundleSize.Script.Tree
import Mathlib

/-!
# How much of the minified text is attributed

Attribution looks at one definition at a time, and nothing later compares
ranges with each other. So if a table places all mappings inside the minified
text, each entry of the report is between nothing and the whole text
(`Report.size_bounds_of_build`), but the entries together can exceed it: two
definitions whose characters were sent to the same place both count it
(`shared`).

The total is a bound as soon as the table keeps every definition apart from
the later ones. This is about the ends of definitions only; inside a
definition, source positions may share generated ones. The ranges are then
disjoint, in the order of the definitions, and `occupied_le` adds them up.
-/

namespace BundleSize

/-! ## Extracted definitions -/

/-- Extraction counts characters from the start of the text. -/
theorem Program.definitions_nonneg {p : Program} {filter : NameFilter} {d : Definition}
    (h : d ∈ p.definitions filter) : 0 ≤ d.start ∧ 0 ≤ d.stop := by
  have hof : ∀ kind name node, 0 ≤ (p.definitionOf kind name node).start
      ∧ 0 ≤ (p.definitionOf kind name node).stop :=
    fun _ _ _ => ⟨Int.natCast_nonneg _, Int.natCast_nonneg _⟩
  obtain ⟨statement, -, h⟩ := List.mem_flatMap.mp (List.mem_filter.mp h).1
  unfold statementDefinitions at h
  split at h
  · obtain ⟨declarator, -, h⟩ := List.mem_filterMap.mp h
    unfold declaratorDefinition? at h
    split at h
    · split at h
      · split at h
        · obtain rfl := Option.some.inj h
          exact hof ..
        · cases h
      · cases h
    · cases h
  · unfold functionDefinition? at h
    split at h
    · obtain ⟨name, -, rfl⟩ := Option.map_eq_some_iff.mp (Option.mem_toList.mp h)
      exact hof ..
    · cases h

/-! ## Reports of parsed programs -/

namespace Report

variable {t : Translator} {table : PositionTable} {ds : List Definition}
variable {size : Int} {anomalies : List Anomaly} {report : Report}

theorem size_bounds_of_build (ht : t.table = some table)
    (hstands : t.StandsUpTo table (t.minified.length - 1))
    (hbuild : build (ds.filterMap t.range?) size anomalies = .ok report) {e : Entry}
    (he : e ∈ report.entries) : 0 ≤ e.size ∧ e.size ≤ t.minified.length := by
  have hsize : e.size ∈ (ds.filterMap t.range?).map AttributedRange.size :=
    (sizes_of_build hbuild).mem_iff.mp (List.mem_map_of_mem he)
  obtain ⟨r, hr, hsize⟩ := List.mem_map.mp hsize
  have hbounds := bounds_of_mem_ranges ht hstands hr
  rw [← hsize, AttributedRange.size]
  omega

theorem attributed_nonneg_of_build (ht : t.table = some table)
    (hstands : t.StandsUpTo table (t.minified.length - 1))
    (hbuild : build (ds.filterMap t.range?) size anomalies = .ok report) :
    0 ≤ report.attributed := by
  rw [attributed_of_build hbuild]
  exact occupied_nonneg fun r hr => (bounds_of_mem_ranges ht hstands hr).2.1

theorem attributed_le_of_build (ht : t.table = some table)
    (hstands : t.StandsUpTo table (t.minified.length - 1)) (hnonneg : ∀ d ∈ ds, 0 ≤ d.stop)
    (hordered : ds.Pairwise fun d e => d.stop ≤ e.start)
    (hseparates : ds.Pairwise fun d e =>
      table.Separates (t.code.position d.stop) (t.code.position e.start))
    (hbuild : build (ds.filterMap t.range?) size anomalies = .ok report) :
    report.attributed ≤ t.minified.length := by
  have hdisjoint := pairwise_ranges_of_separates ht (hstands.mono (by omega)) hnonneg hordered
    hseparates
  have hoccupied := occupied_le (Int.natCast_nonneg t.minified.length)
    (fun r hr => bounds_of_mem_ranges ht hstands hr) hdisjoint
  rw [attributed_of_build hbuild]
  omega

end Report

/-! ## Reports of inspections -/

/-- No entry is negative or exceeds the total, and together the entries do not exceed it either if
something is `apart`. -/
structure Report.Covers (r : Report) (apart : Prop) : Prop where
  nonneg : 0 ≤ r.attributed
  size : ∀ e ∈ r.entries, 0 ≤ e.size ∧ e.size ≤ r.total
  total : apart → r.attributed ≤ r.total

/-- The table keeps each definition of the code apart from every later one. -/
def PositionTable.KeepsApart (table : PositionTable) (code : String) (ds : List Definition) :
    Prop :=
  ds.Pairwise fun d e => table.Separates ((LineIndex.ofText code).position d.stop)
    ((LineIndex.ofText code).position e.start)

theorem Inspection.covers_of_conclusion {code minified : String} {table : PositionTable}
    {mode : InspectionMode} {program measured : Program} {report : Report}
    (hextent : measured.extent = (0, minified.length))
    (hinside : ∀ p q, table.Sends p q → ∃ offset : Int, 0 ≤ offset ∧ offset < minified.length
      ∧ (LineIndex.ofText minified).position offset = q)
    (hordered : (program.definitions mode.filter).Pairwise fun d e => d.stop ≤ e.start)
    (hreport : conclusion program measured.size (.ofTexts code (some minified) (some table)) mode
      = .ok report) :
    report.total = minified.length
      ∧ report.Covers (table.KeepsApart code (program.definitions mode.filter)) := by
  obtain ⟨anomalies, hbuild⟩ := build_of_conclusion hreport
  have htotal : report.total = minified.length := by
    rw [(Report.fields_of_build hbuild).2.1, Program.size, hextent]
    exact Int.sub_zero _
  have hstands : (Translator.ofTexts code (some minified) (some table)).StandsUpTo table
      (minified.length - 1) := by
    intro p q hsends
    obtain ⟨offset, hnonneg, hlt, hq⟩ := hinside p q hsends
    exact ⟨offset, hnonneg, Int.le_sub_one_of_lt hlt, hq⟩
  refine ⟨htotal, Report.attributed_nonneg_of_build rfl hstands hbuild, ?_, ?_⟩
  · rw [htotal]
    exact fun e he => Report.size_bounds_of_build rfl hstands hbuild he
  · rw [htotal]
    exact fun hapart => Report.attributed_le_of_build rfl hstands
      (fun d hd => (Program.definitions_nonneg hd).2) hordered hapart hbuild

/-- **Coverage is bounded by what the table keeps apart.** Let a minified text be measured as a
whole, let the table's mappings stand in it, and let the definitions follow each other. Whatever
programs the texts are parsed to, in a report no size is negative and none exceeds the text. All
sizes together do not exceed it either if the table keeps each definition apart from the later ones.
-/
theorem coverage_of_inspect {code minified : String} {table : PositionTable}
    {mode : InspectionMode} {program measured : Program}
    (hextent : measured.extent = (0, minified.length))
    (hinside : ∀ p q, table.Sends p q → ∃ offset : Int, 0 ≤ offset ∧ offset < minified.length
      ∧ (LineIndex.ofText minified).position offset = q)
    (hordered : (program.definitions mode.filter).Pairwise fun d e => d.stop ≤ e.start) :
    (∀ report, (Inspection.report program measured.size
          (.ofTexts code (some minified) (some table)) mode).run.1 = .ok report →
        report.total = minified.length
          ∧ report.Covers (table.KeepsApart code (program.definitions mode.filter)))
      ∧ ∀ [SyntaxParser] (newParser : Bool) (report : Report), Program.read code = .ok program →
        Program.read minified = .ok measured →
        (inspect code (some minified) (some table) mode newParser).run.1 = .ok report →
          report.total = minified.length
            ∧ report.Covers (table.KeepsApart code (program.definitions mode.filter)) := by
  constructor
  · intro report hreport
    rw [Inspection.result_report] at hreport
    exact Inspection.covers_of_conclusion hextent hinside hordered hreport
  · intro _ newParser report hprogram hmeasured hreport
    rw [result_inspect, Inspection.result_of_read hprogram hmeasured] at hreport
    exact Inspection.covers_of_conclusion hextent hinside hordered hreport

/-- Two variables next to each other in an initializer. -/
def twoVariables : String := "(function(){var a=1;var b=2;})();"

theorem read_twoVariables : ∃ program, Program.read twoVariables = .ok program
    ∧ program.definitions [] = [⟨"a", .binding, 16, 19⟩, ⟨"b", .binding, 24, 27⟩] := by
  have hread : (Program.read twoVariables).map (fun program => program.definitions [])
      = .ok [⟨"a", .binding, 16, 19⟩, ⟨"b", .binding, 24, 27⟩] := by decide +kernel
  exact map_eq_ok hread

theorem inspect_twoVariables {minified : String} {table : PositionTable} {measured : Program}
    {first second : AttributedRange} {percentage : String}
    (hmeasured : Program.read minified = .ok measured)
    (hfirst : (Translator.ofTexts twoVariables (some minified) (some table)).range?
      ⟨"a", .binding, 16, 19⟩ = some first)
    (hsecond : (Translator.ofTexts twoVariables (some minified) (some table)).range?
      ⟨"b", .binding, 24, 27⟩ = some second)
    (hsizes : first.size = 1 ∧ second.size = 1)
    (hpercentage : Percentage.render 1 measured.size = .ok percentage)
    (hwritable : Text.isWritable measured.size = true) : ∃ report : Report,
    (inspect twoVariables (some minified) (some table) {} false).run.1 = .ok report
      ∧ report.total = measured.size ∧ report.attributed = 2 := by
  obtain ⟨program, hprogram, hdefinitions⟩ := read_twoVariables
  have hsettled : ∀ d ∈ program.definitions [], Attributor.Settled
      (Translator.ofTexts twoVariables (some minified) (some table)) d := by
    rw [hdefinitions]
    simp only [List.forall_mem_cons]
    exact ⟨.inr ⟨_, Translator.outcome_of_range? hfirst⟩,
      .inr ⟨_, Translator.outcome_of_range? hsecond⟩, List.forall_mem_nil _⟩
  have hrank : rank [first, second] = [first, second] := by
    refine List.mergeSort_of_pairwise ?_
    simp [largerFirst, hsizes]
  have hentries : (rank [first, second]).mapM (entryOf measured.size)
      = .ok [⟨first.definition.name, first.definition.kind, 1, percentage⟩,
        ⟨second.definition.name, second.definition.kind, 1, percentage⟩] := by
    rw [hrank]
    simp only [List.mapM_cons, List.mapM_nil, entryOf, hsizes, hpercentage]
    rfl
  have htwo : Text.isWritable 2 = true := by decide
  have hbuild : Report.build [first, second] measured.size [] = .ok ⟨_, measured.size, 2, []⟩ :=
    Report.build_eq_ok_iff.mpr
      ⟨_, hentries, rfl, Bool.and_eq_true_iff.mpr ⟨htwo, hwritable⟩⟩
  refine ⟨⟨_, measured.size, 2, []⟩, Eq.trans ?_ (congrArg (Except.mapError .percentage) hbuild),
    rfl, rfl⟩
  rw [result_inspect, Inspection.result_of_read hprogram hmeasured,
    Inspection.conclusion_of_settled hsettled, hdefinitions, List.filterMap_cons_some hfirst,
    List.filterMap_cons_some hsecond, List.filterMap_nil]

/-- Both characters of a variable go to one place, and each variable has its own. -/
def keptApart : PositionTable :=
  .ofMappings
    [⟨⟨1, 0⟩, some (.string "0"), some ⟨1, 16⟩, none⟩,
      ⟨⟨1, 0⟩, some (.string "0"), some ⟨1, 18⟩, none⟩,
      ⟨⟨1, 2⟩, some (.string "0"), some ⟨1, 24⟩, none⟩,
      ⟨⟨1, 2⟩, some (.string "0"), some ⟨1, 26⟩, none⟩] none

theorem coverage_of_inspect_keptApart : ∃ report : Report,
    (inspect twoVariables (some "a;b;") (some keptApart) {} false).run.1 = .ok report
      ∧ report.total = 4 ∧ 0 ≤ report.attributed ∧ report.attributed ≤ report.total := by
  obtain ⟨program, hprogram, hdefinitions⟩ := read_twoVariables
  have hread : (Program.read "a;b;").map Program.extent = .ok (0, 4) := by decide +kernel
  obtain ⟨measured, hmeasured, hextent⟩ := map_eq_ok hread
  have hsize : measured.size = 4 := by
    rw [Program.size, hextent]
    rfl
  have hfirst : (Translator.ofTexts twoVariables (some "a;b;") (some keptApart)).range?
      ⟨"a", .binding, 16, 19⟩ = some ⟨⟨"a", .binding, 16, 19⟩, 0, 1⟩ := by cbv
  have hsecond : (Translator.ofTexts twoVariables (some "a;b;") (some keptApart)).range?
      ⟨"b", .binding, 24, 27⟩ = some ⟨⟨"b", .binding, 24, 27⟩, 2, 3⟩ := by cbv
  have hpercentage : Percentage.render 1 measured.size = .ok "25.000%" := by
    rw [hsize]
    decide +kernel
  obtain ⟨report, hreport, -, -⟩ :=
    inspect_twoVariables hmeasured hfirst hsecond ⟨rfl, rfl⟩ hpercentage (by rw [hsize]; decide)
  have hcharacter : ∀ p q, keptApart.Sends p q → Text.AtCharacter "a;b;" q :=
    PositionTable.forall_sends.mpr (by decide)
  have hseparates : keptApart.Separates ((LineIndex.ofText twoVariables).position 19)
      ((LineIndex.ofText twoVariables).position 24) := by
    rw [show (LineIndex.ofText twoVariables).position 19 = ⟨1, 19⟩ by cbv,
      show (LineIndex.ofText twoVariables).position 24 = ⟨1, 24⟩ by cbv]
    decide
  have hapart : keptApart.KeepsApart twoVariables (program.definitions []) := by
    rw [hdefinitions]
    simpa [PositionTable.KeepsApart] using hseparates
  have hordered : (program.definitions ({} : InspectionMode).filter).Pairwise
      fun d e => d.stop ≤ e.start := by
    rw [hdefinitions]
    decide
  obtain ⟨-, hcovers⟩ := coverage_of_inspect hextent
    (fun p q hsends => LineIndex.exists_offset_of_atCharacter (x := .ofText "a;b;")
      (hcharacter p q hsends)) hordered
  obtain ⟨htotal, hreported⟩ := hcovers false report hprogram hmeasured hreport
  exact ⟨report, hreport, htotal, hreported.nonneg, hreported.total hapart⟩

/-- Both variables go to the same place. -/
def shared : PositionTable :=
  .ofMappings
    [⟨⟨1, 0⟩, some (.string "0"), some ⟨1, 16⟩, none⟩,
      ⟨⟨1, 0⟩, some (.string "0"), some ⟨1, 18⟩, none⟩,
      ⟨⟨1, 0⟩, some (.string "0"), some ⟨1, 24⟩, none⟩,
      ⟨⟨1, 0⟩, some (.string "0"), some ⟨1, 26⟩, none⟩] none

/-- Mappings inside the minified text are not enough for the bound, not even in the order of the
source: the one character of the text is counted for both variables. -/
theorem not_attributed_le_total :
    ¬∀ [SyntaxParser] (code minified : String) (table : PositionTable) (mode : InspectionMode)
      (newParser : Bool) (program measured : Program) (report : Report),
      Program.read code = .ok program →
      Program.read minified = .ok measured → measured.extent = (0, minified.length) →
      (∀ p q, table.Sends p q → Text.AtCharacter minified q) → table.Monotone →
      (∀ d ∈ program.definitions mode.filter, 0 ≤ d.start ∧ d.start < d.stop) →
      (program.definitions mode.filter).Pairwise (fun d e => d.stop ≤ e.start) →
      (inspect code (some minified) (some table) mode newParser).run.1 = .ok report →
        0 ≤ report.attributed ∧ report.attributed ≤ report.total := by
  intro hbounded
  obtain ⟨program, hprogram, hdefinitions⟩ := read_twoVariables
  have hread : (Program.read ";").map Program.extent = .ok (0, 1) := by decide +kernel
  obtain ⟨measured, hmeasured, hextent⟩ := map_eq_ok hread
  have hsize : measured.size = 1 := by
    rw [Program.size, hextent]
    rfl
  have hfirst : (Translator.ofTexts twoVariables (some ";") (some shared)).range?
      ⟨"a", .binding, 16, 19⟩ = some ⟨⟨"a", .binding, 16, 19⟩, 0, 1⟩ := by cbv
  have hsecond : (Translator.ofTexts twoVariables (some ";") (some shared)).range?
      ⟨"b", .binding, 24, 27⟩ = some ⟨⟨"b", .binding, 24, 27⟩, 0, 1⟩ := by cbv
  have hpercentage : Percentage.render 1 measured.size = .ok "100.000%" := by
    rw [hsize]
    decide +kernel
  obtain ⟨report, hreport, htotal, hattributed⟩ :=
    inspect_twoVariables hmeasured hfirst hsecond ⟨rfl, rfl⟩ hpercentage (by rw [hsize]; decide)
  have hcharacter : ∀ p q, shared.Sends p q → Text.AtCharacter ";" q :=
    PositionTable.forall_sends.mpr (by decide)
  have hle := (hbounded twoVariables ";" shared {} false program measured report hprogram hmeasured
    hextent hcharacter (by decide) (by rw [hdefinitions]; decide) (by rw [hdefinitions]; decide)
    hreport).2
  rw [htotal, hattributed, hsize] at hle
  exact absurd hle (by decide)

end BundleSize
