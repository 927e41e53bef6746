import BundleSize.Proofs.RankedReports

/-!
# Limited reports

A report is shown in three ways: as text, as records of a journal and as an object. A
limit means the same to each of them (`Report.presents_top`). What it leaves is a
beginning of the full ranking (`Report.cuts_top`), so that nothing which is left out
is larger than anything shown. The totals are written without the limit.

The coverage is the one thing that can still fail when there is a report on sizes that
are not negative: none of them is longer to write than their sum. The coverage then fails
under every limit, and after the entries have been given away.
-/

namespace BundleSize

/-- The line of an entry in a text. -/
def Entry.text (e : Entry) : String := e.percentage ++ ": " ++ e.name ++ "\n"

/-- The record of an entry in a journal. -/
def Entry.record (level : Level) (e : Entry) : Record :=
  ⟨level, e.percentage ++ ": " ++ e.name ++ " (" ++ toString e.size ++ ")"⟩

namespace Report

/-- What a limit is to leave of a ranking: a beginning of it, all without a limit, up to as many
entries as the limit says, and all but the last ones if it is negative. What is left out is nowhere
larger than what is shown. -/
structure Cuts (entries : List Entry) (limit : Option Int) (shown : List Entry) : Prop where
  first : shown <+: entries
  whole : limit = none → shown = entries
  count : ∀ n, limit = some n → (shown.length : Int)
    = if 0 ≤ n then min n entries.length else max 0 (entries.length + n)
  largest : ∀ e ∈ shown, ∀ f ∈ entries.drop shown.length, f.size ≤ e.size

/-- The members of the object form that are not entries. -/
def totals (r : Report) (coverage : String) : List (String × Json) :=
  [("total_entries", .int r.entries.length),
    ("total_minified_size", .int r.total),
    ("attributed_size", .int r.attributed),
    ("coverage_percentage", .string coverage),
    ("anomalies", .array (r.anomalies.map Anomaly.toJson))]

/-- Under the limit, each form of the report shows these entries and then the totals. A coverage
that is out of range is that of each form, and what was given away before are these entries. -/
structure Presents (r : Report) (limit : Option Int) (shown : List Entry) : Prop where
  text : r.toText limit
    = r.coverage.map fun c => String.join (shown.map Entry.text) ++ r.totalsLine c ++ "\n"
  records : ∀ level, r.toRecords level limit
    = r.coverage.map fun c => shown.map (Entry.record level) ++ [⟨level, r.totalsLine c⟩]
  members : r.members limit
    = r.coverage.map fun c => ("entries", .array (shown.map entryToJson)) :: r.totals c
  linesBefore : r.entryLines limit = String.join (shown.map Entry.text)
  recordsBefore : ∀ level, r.entryRecords level limit = shown.map (Entry.record level)

variable {ranges : List AttributedRange} {total : Int} {anomalies : List Anomaly}
  {report : Report}

theorem top_beginning (r : Report) : ∀ limit, r.top limit <+: r.entries
  | none => List.prefix_rfl
  | some n => by
      simp only [top]
      split
      · exact List.take_prefix ..
      · exact List.take_prefix ..

/-- Where all numbers can be written, each form shows the entries up to the limit. -/
theorem presents_top {r : Report} (htotals : r.hasWritableTotals = true)
    (hentries : ∀ e ∈ r.entries, isRecordable e = true) (limit : Option Int) :
    r.Presents limit (r.top limit) := by
  have hall : ∀ e ∈ r.top limit, isRecordable e = true :=
    fun e he => hentries e ((r.top_beginning limit).subset he)
  have hrecords : ∀ level, r.entryRecords level limit = (r.top limit).map (Entry.record level) := by
    intro level
    rw [entryRecords, List.takeWhile_eq_self_iff.mpr hall]
    rfl
  refine ⟨toText_eq htotals limit, fun level => ?_, ?_, rfl, hrecords⟩
  · rw [toRecords_eq htotals (List.all_eq_true.mpr hall), hrecords]
  · unfold members
    cases r.coverage <;> rfl

theorem length_top (r : Report) (n : Int) : ((r.top (some n)).length : Int)
    = if 0 ≤ n then min n r.entries.length else max 0 (r.entries.length + n) := by
  simp only [top]
  split
  · rw [List.length_take]
    omega
  · rw [List.length_take]
    omega

theorem le_of_mem_drop {entries shown : List Entry}
    (h : (entries.map Entry.line).Pairwise fun l m => m.2.2 ≤ l.2.2) (hfirst : shown <+: entries) :
    ∀ e ∈ shown, ∀ f ∈ entries.drop shown.length, f.size ≤ e.size := by
  obtain ⟨rest, rfl⟩ := hfirst
  rw [List.drop_left]
  exact (List.pairwise_append.mp (List.pairwise_map.mp h)).2.2

theorem cuts_top (h : build ranges total anomalies = .ok report) (limit : Option Int) :
    Cuts report.entries limit (report.top limit) where
  first := report.top_beginning limit
  whole := by
    rintro rfl
    rfl
  count := by
    rintro n rfl
    exact report.length_top n
  largest := le_of_mem_drop (ranks_of_build h).descending (report.top_beginning limit)

theorem inRange_of_sum (hsizes : ∀ r ∈ ranges, 0 ≤ r.size)
    (h : Percentage.InRange (ranges.map AttributedRange.size).sum total) :
    ∀ r ∈ ranges, Percentage.InRange r.size total := by
  intro r hr
  have hle : r.size ≤ (ranges.map AttributedRange.size).sum :=
    List.single_le_sum (by simpa using hsizes) _ (List.mem_map_of_mem hr)
  have hnonneg : 0 ≤ r.size := hsizes r hr
  exact h.of_le (by omega)

/-- No size is longer to write than the sum, so every entry can be recorded. -/
theorem recordable_of_build (hsizes : ∀ r ∈ ranges, 0 ≤ r.size)
    (h : build ranges total anomalies = .ok report) :
    ∀ e ∈ report.entries, isRecordable e = true := by
  intro e he
  have hwritable := writable_of_build h
  rw [hasWritableTotals, Bool.and_eq_true, (fields_of_build h).2.2.1, totalSize_eq_sum]
    at hwritable
  have hnonneg := nonneg_of_build h hsizes
  have hle : e.size ≤ (report.entries.map (·.size)).sum :=
    List.single_le_sum (by simpa using hnonneg) _ (List.mem_map_of_mem he)
  exact Text.isWritable_of_le (hnonneg e he) hle hwritable.1

theorem coverage_of_build (h : build ranges total anomalies = .ok report) :
    report.coverage = Percentage.render (ranges.map AttributedRange.size).sum total := by
  rw [coverage, attributed_eq_sum h, (fields_of_build h).2.1]

/-- **Every form of a report shows the same beginning of the ranking.** Let no size be negative.
There is a report with a coverage exactly if the sum of the sizes is in the range of double
precision, and if it and the total can be written. The entries of a report are the ranking of the
ranges, and the totals are about all of them. Under any limit the text, the records and the object
show the same entries, those that the limit is to leave, and the same totals. -/
theorem surfaces_agree (total : Int) (anomalies : List Anomaly)
    (hsizes : ∀ r ∈ ranges, 0 ≤ r.size) :
    ((∃ report coverage, build ranges total anomalies = .ok report
          ∧ report.coverage = .ok coverage)
        ↔ Percentage.InRange (ranges.map AttributedRange.size).sum total
          ∧ Text.isWritable (ranges.map AttributedRange.size).sum = true
          ∧ Text.isWritable total = true)
      ∧ ∀ report, build ranges total anomalies = .ok report →
        (Ranks (report.entries.map Entry.line) ranges
          ∧ report.attributed = (ranges.map AttributedRange.size).sum
          ∧ report.total = total ∧ report.anomalies = anomalies)
        ∧ ∀ limit, ∃ shown, Cuts report.entries limit shown ∧ report.Presents limit shown := by
  refine ⟨⟨?_, fun ⟨hrange, hsum, htotal⟩ => ?_⟩, fun report h => ⟨?_, fun limit => ?_⟩⟩
  · rintro ⟨report, coverage, h, hcoverage⟩
    have hpresentable := exists_build_iff.mp ⟨report, h⟩
    exact ⟨Percentage.exists_render_iff.mp ⟨coverage, coverage_of_build h ▸ hcoverage⟩,
      hpresentable.attributed, hpresentable.total⟩
  · obtain ⟨report, h⟩ := exists_build_iff.mpr ⟨inRange_of_sum hsizes hrange, hsum, htotal⟩
    obtain ⟨coverage, hcoverage⟩ := Percentage.exists_render_iff.mpr hrange
    exact ⟨report, coverage, h, (coverage_of_build h).trans hcoverage⟩
  · obtain ⟨-, htotal, -, hanomalies⟩ := fields_of_build h
    exact ⟨ranks_of_build h, attributed_eq_sum h, htotal, hanomalies⟩
  · exact ⟨report.top limit, cuts_top h limit,
      presents_top (writable_of_build h) (recordable_of_build hsizes h) limit⟩

theorem surfaces_agree_withTies : (∀ r ∈ withTies, 0 ≤ r.size)
    ∧ ∃ report coverage shown, build withTies 9 [] = .ok report ∧ report.coverage = .ok coverage
      ∧ shown.map Entry.line = [("b", .function, 3), ("a", .binding, 2)]
      ∧ report.Presents (some 2) shown := by
  have hsizes : ∀ r ∈ withTies, 0 ≤ r.size := by decide
  obtain ⟨hexists, hreport⟩ := surfaces_agree 9 [] hsizes
  obtain ⟨report, coverage, h, hcoverage⟩ := hexists.mpr (by decide +kernel)
  obtain ⟨⟨hranks, -⟩, hshown⟩ := hreport report h
  obtain ⟨shown, hcuts, hpresents⟩ := hshown (some 2)
  have hlines : report.entries.map Entry.line
      = [("b", .function, 3), ("a", .binding, 2), ("a", .function, 2), ("c", .binding, 2)] :=
    (hranks.unique (ranks_rank withTies)).trans (by cbv)
  have hlength : report.entries.length = 4 := by
    rw [← List.length_map Entry.line, hlines]
    rfl
  have hcount := hcuts.count 2 rfl
  rw [hlength] at hcount
  have hshort : shown.length = 2 := by
    simp only [Nat.cast_ofNat] at hcount
    omega
  refine ⟨hsizes, report, coverage, shown, h, hcoverage, ?_, hpresents⟩
  rw [List.prefix_iff_eq_take.mp hcuts.first, hshort, List.map_take, hlines]
  rfl

/-- Two sizes that are in range, though their sum is not. -/
def outOfRangeTogether : List AttributedRange :=
  [⟨⟨"a", .binding, 0, 1⟩, 0, 2 ^ 1023⟩, ⟨⟨"b", .binding, 1, 2⟩, 0, 2 ^ 1023⟩]

/-- Entries that are written as text, and none in the object form; and sizes that are in range, but
have no report. -/
theorem surfaces_differ : ((∀ r ∈ outOfRangeTogether, 0 ≤ r.size)
    ∧ ∃ report, build outOfRangeTogether 1 [] = .ok report
      ∧ report.entryLines none = "inf%: a\ninf%: b\n"
      ∧ report.members none = .error .tooLarge)
    ∧ Percentage.InRange ([tooLong].map AttributedRange.size).sum tooLong.size
      ∧ ∀ report, build [tooLong] tooLong.size [] ≠ .ok report := by
  have hranked : rank outOfRangeTogether = outOfRangeTogether :=
    List.mergeSort_of_pairwise (by decide +kernel)
  have hbuild : build outOfRangeTogether 1 [] = .ok
      ⟨[⟨"a", .binding, 2 ^ 1023, "inf%"⟩, ⟨"b", .binding, 2 ^ 1023, "inf%"⟩], 1, 2 ^ 1024, []⟩ := by
    rw [build, hranked]
    decide +kernel
  have hcoverage : Percentage.render (2 ^ 1024) 1 = .error .tooLarge := by decide +kernel
  refine ⟨⟨by decide +kernel, _, hbuild, by decide +kernel, ?_⟩, ?_, build_tooLong_ne_ok⟩
  · rw [members, coverage, hcoverage]
    rfl
  · rw [List.map_singleton, List.sum_singleton]
    exact tooLong_inRange tooLong (List.mem_singleton_self _)

end Report

end BundleSize
