import BundleSize.Proofs.Diagnostics
import BundleSize.Proofs.RoundTrip
import BundleSize.Proofs.Rounding
import BundleSize.Script.Tree
import BundleSize.SourceMap.Encoding
import Mathlib.Data.List.Basic

/-!
# A table that moves nothing

Under a table that sends every character to its own place, an offset comes
back from translation as it was: the character looked up has a mapping of its
own, which leads to the same place in the same text (`translate_left_of_unmoved`),
and for an exclusive end the step back to the last character and the step
forward past it cancel (`translate_right_of_unmoved`). This is what translation
without a table does, so an inspection cannot tell the two apart
(`Inspection.conclusion_of_unmoved`): both report every definition at its own
place, unless the report has a number that is too long to be written
(`Inspection.exists_conclusion_iff_of_no_table`).

The documents that list such a mapping for every character of a text have such
a table (`unmoves_of_writes`). What has to be shown is that the columns that
they list, line by line, are the positions of all offsets of the text.
-/

namespace BundleSize

/-! ## Translation -/

namespace PositionTable

/-- Every character of the text has a mapping, and all mappings of the selected source lead back to
where they come from. -/
structure Unmoves (t : PositionTable) (x : LineIndex) : Prop where
  same : ∀ p q, t.Sends p q → p = q
  sends : ∀ offset : Int, 0 ≤ offset → offset < x.length →
    t.Sends (x.position offset) (x.position offset)

/-- The lookup of a character finds a mapping of the character itself. -/
theorem Unmoves.find? {t : PositionTable} {x : LineIndex} (h : t.Unmoves x) {offset : Int}
    (hnonneg : 0 ≤ offset) (hlt : offset < x.length) :
    ∃ m, t.find? (x.position offset) .leastUpper = some m
      ∧ m.sourcePosition = some (x.position offset) ∧ m.generated = x.position offset :=
  find?_of_first h.same (h.sends offset hnonneg hlt) (Position.upTo_refl _) fun _ _ hupTo => hupTo

end PositionTable

namespace Translator

variable {t : Translator} {table : PositionTable}

theorem translate_left_of_unmoved (ht : t.table = some table) (hcode : t.minified = t.code)
    (h : table.Unmoves t.code) {offset : Int} (hnonneg : 0 ≤ offset)
    (hlt : offset < t.code.length) : t.translate offset .left = .ok (some offset) := by
  obtain ⟨m, hfind, -, hgenerated⟩ := h.find? hnonneg hlt
  have hfound : t.minified.offset m.generated = .ok offset := by
    rw [hcode, hgenerated]
    exact LineIndex.offset_position hnonneg (by omega)
  exact translate_left_of_find? ht hfind hfound

theorem translate_right_of_unmoved (ht : t.table = some table) (hcode : t.minified = t.code)
    (h : table.Unmoves t.code) {offset : Int} (hpos : 0 < offset)
    (hle : offset ≤ t.code.length) : t.translate offset .right = .ok (some offset) := by
  have hnonneg : 0 ≤ offset - 1 := by omega
  obtain ⟨m, hfind, hown, hgenerated⟩ := h.find? hnonneg (by omega)
  have hfound : t.minified.offset m.generated = .ok (offset - 1) := by
    rw [hcode, hgenerated]
    exact LineIndex.offset_position (by omega) (by omega)
  rw [← Boundary.target_right hpos] at hfind hown
  have hmoved : Boundary.right.target offset ≠ offset := by
    rw [Boundary.target_right hpos]
    omega
  rw [translate_of_find? ht hfind hfound, if_pos ⟨hmoved, hown⟩, Int.sub_add_cancel]

theorem outcome_of_unmoved (ht : t.table = some table) (hcode : t.minified = t.code)
    (h : table.Unmoves t.code) {d : Definition} (hstart : 0 ≤ d.start) (hlt : d.start < d.stop)
    (hle : d.stop ≤ t.code.length) : t.outcome d = .ok (.kept ⟨d, d.start, d.stop⟩) := by
  rw [outcome_eq (translate_left_of_unmoved ht hcode h hstart (by omega))
    (translate_right_of_unmoved ht hcode h (by omega) hle), classify, if_pos (by omega)]

/-- Without a table every offset stays where it is. -/
theorem translate_of_no_table (ht : t.table = none) (offset : Int) (b : Boundary) :
    t.translate offset b = .ok (some offset) := by
  rw [translate, ht]

theorem outcome_of_no_table (ht : t.table = none) {d : Definition} (hle : d.start ≤ d.stop) :
    t.outcome d = .ok (.kept ⟨d, d.start, d.stop⟩) := by
  rw [outcome_eq (translate_of_no_table ht _ _) (translate_of_no_table ht _ _), classify,
    if_pos hle]

end Translator

/-- The range that a definition has by itself. -/
def Definition.whole (d : Definition) : AttributedRange := ⟨d, d.start, d.stop⟩

/-- Without a table every definition is kept with its own range. -/
theorem Translator.filterMap_range?_of_no_table {t : Translator} (ht : t.table = none)
    {ds : List Definition} (hds : ∀ d ∈ ds, d.start ≤ d.stop) :
    ds.filterMap t.range? = ds.map Definition.whole := by
  rw [← List.filterMap_eq_map]
  refine List.filterMap_congr fun d hd => ?_
  rw [Translator.range?, outcome_of_no_table ht (hds d hd)]
  rfl

/-! ## Inspections -/

namespace Inspection

/-- Two translators that keep all definitions, and with the same ranges, give the same report. -/
theorem conclusion_of_kept {program : Program} {size : Int} {t t' : Translator}
    {mode : InspectionMode}
    (hkept : ∀ d ∈ program.definitions mode.filter,
      ∃ r, t.outcome d = .ok (.kept r) ∧ t'.outcome d = .ok (.kept r)) :
    conclusion program size t mode = conclusion program size t' mode := by
  have hranges : (program.definitions mode.filter).filterMap t.range?
      = (program.definitions mode.filter).filterMap t'.range? := by
    refine List.filterMap_congr fun d hd => ?_
    obtain ⟨r, houtcome, houtcome'⟩ := hkept d hd
    rw [Translator.range?, Translator.range?, houtcome, houtcome']
  rw [conclusion_of_settled fun d hd => Or.inr ((hkept d hd).imp fun _ h => h.1),
    conclusion_of_settled fun d hd => Or.inr ((hkept d hd).imp fun _ h => h.2), hranges]

/-- The definitions are ranges of the text with something in them. -/
def InText (ds : List Definition) (text : String) : Prop :=
  ∀ d ∈ ds, 0 ≤ d.start ∧ d.start < d.stop ∧ d.stop ≤ text.length

/-- Without a table every definition is reported at its own place. -/
theorem conclusion_of_no_table {t : Translator} (ht : t.table = none) {program : Program}
    {mode : InspectionMode} (hordered : ∀ d ∈ program.definitions mode.filter, d.start ≤ d.stop)
    (size : Int) :
    conclusion program size t mode
      = (Report.build ((program.definitions mode.filter).map Definition.whole) size []).mapError
          .percentage := by
  rw [conclusion_of_settled fun d hd =>
      Or.inr ⟨_, Translator.outcome_of_no_table ht (hordered d hd)⟩,
    Translator.filterMap_range?_of_no_table ht hordered]

/-- Only a total that is too long to be written keeps such a run from reporting. -/
theorem exists_conclusion_iff_of_no_table {t : Translator} (ht : t.table = none) {text : String}
    (hlength : text.length < 2 ^ 1023) {program : Program} {mode : InspectionMode}
    (hin : InText (program.definitions mode.filter) text) (size : Int) :
    (∃ report, conclusion program size t mode = .ok report)
      ↔ Text.isWritable (occupied ((program.definitions mode.filter).map Definition.whole)) = true
        ∧ Text.isWritable size = true := by
  have hpercentages : ∀ r ∈ (program.definitions mode.filter).map Definition.whole,
      ∃ percentage, Percentage.render r.size size = .ok percentage := by
    intro r hr
    obtain ⟨d, hd, rfl⟩ := List.mem_map.mp hr
    obtain ⟨hstart, hlt, hle⟩ := hin d hd
    refine Percentage.exists_render size ?_
    simp only [AttributedRange.size, Definition.whole]
    omega
  obtain ⟨report, hattributed, htotal, hbuild⟩ := Report.build_of_percentages [] hpercentages
  rw [conclusion_of_no_table ht fun d hd => Int.le_of_lt (hin d hd).2.1, hbuild, ← hattributed,
    ← htotal, ← Bool.and_eq_true, ← Report.hasWritableTotals]
  cases report.hasWritableTotals with
  | true => exact ⟨fun _ => rfl, fun _ => ⟨report, rfl⟩⟩
  | false =>
      refine ⟨?_, fun h => absurd h Bool.false_ne_true⟩
      rintro ⟨found, hfound⟩
      cases hfound

theorem conclusion_of_unmoved {text : String} {table : PositionTable}
    (h : table.Unmoves (.ofText text)) {program : Program} {mode : InspectionMode}
    (hin : InText (program.definitions mode.filter) text) (size : Int) :
    conclusion program size (.ofTexts text (some text) (some table)) mode
      = conclusion program size (.ofTexts text none none) mode := by
  refine conclusion_of_kept fun d hd => ?_
  obtain ⟨hstart, hlt, hle⟩ := hin d hd
  exact ⟨_, Translator.outcome_of_unmoved rfl rfl h hstart hlt hle,
    Translator.outcome_of_no_table rfl (Int.le_of_lt hlt)⟩

/-- Without a minified text the program itself is measured. -/
theorem result_of_read_alone [SyntaxParser] {code : String} {mode : InspectionMode}
    {program : Program} (hprogram : Program.read code = .ok program) :
    result code none none mode
      = conclusion program program.size (.ofTexts code none none) mode := by
  simp only [result, Option.isSome_none, Bool.false_eq_true, false_and, if_false, hprogram,
    measured]
  rfl

theorem result_of_unreadable [SyntaxParser] {code : String} {minified : Option String}
    {table : Option PositionTable} {mode : InspectionMode} {e : SyntaxError}
    (hcode : Program.read code = .error e)
    (hgiven : ¬(minified.isSome = true ∧ table.isNone = true)) :
    result code minified table mode = .error (.unparsable e) := by
  simp only [result, hgiven, if_false, hcode]
  rfl

end Inspection

/-! ## Documents -/

/-- The mapping of a column to itself, on the line with index `line`. -/
def unmovedMapping (source : String) (line column : Nat) : Mapping :=
  ⟨⟨line + 1, column⟩, some (.string source), some ⟨line + 1, column⟩, none⟩

/-- The line with index `n` has a character at the column. Its line feed stands just past it, and
the last line has none. -/
def HasColumn (lines : List String) (n column : Nat) : Prop :=
  ∃ line, lines[n]? = some line
    ∧ (column < line.length ∨ column = line.length ∧ n + 1 < lines.length)

theorem hasColumn_cons_zero {line : String} {rest : List String} {column : Nat} :
    HasColumn (line :: rest) 0 column
      ↔ column < if rest.isEmpty then line.length else line.length + 1 := by
  have hnext : 0 + 1 < (line :: rest).length ↔ rest.isEmpty = false := by
    cases rest <;> simp
  simp only [HasColumn, List.getElem?_cons_zero, Option.some.injEq, exists_eq_left', hnext]
  cases rest.isEmpty with
  | true => simp
  | false =>
      simp only [and_true, Bool.false_eq_true, if_false]
      omega

theorem hasColumn_cons_succ {line : String} {rest : List String} {n column : Nat} :
    HasColumn (line :: rest) (n + 1) column ↔ HasColumn rest n column := by
  simp only [HasColumn, List.getElem?_cons_succ, List.length_cons, Nat.add_lt_add_iff_right]

theorem mem_unmovedColumns {source : String} {names : List String} {line count : Nat}
    {m : Mapping} :
    m ∈ (unmovedColumns line count).map (Segment.mapping [source] names line)
      ↔ ∃ column < count, m = unmovedMapping source line column := by
  simp only [unmovedColumns, List.map_map, List.mem_map, List.mem_range, eq_comm (b := m)]
  exact Iff.rfl

/-- The listed mappings are those of the columns that the lines have. -/
theorem mem_unmovedSegments {source : String} {names : List String} {m : Mapping} :
    ∀ {lines : List String} {first : Nat},
      m ∈ segmentMappings [source] names first (unmovedSegments first lines)
        ↔ ∃ n column, HasColumn lines n column ∧ m = unmovedMapping source (first + n) column
  | [], _ => by simp [unmovedSegments, segmentMappings, HasColumn]
  | line :: rest, first => by
      rw [unmovedSegments, segmentMappings, List.mem_append, mem_unmovedColumns,
        mem_unmovedSegments]
      constructor
      · rintro (⟨column, hlt, rfl⟩ | ⟨n, column, hcolumn, rfl⟩)
        · exact ⟨0, column, hasColumn_cons_zero.mpr hlt, rfl⟩
        · refine ⟨n + 1, column, hasColumn_cons_succ.mpr hcolumn, ?_⟩
          rw [Nat.add_assoc, Nat.add_comm 1 n]
      · rintro ⟨_ | n, column, hcolumn, rfl⟩
        · exact Or.inl ⟨column, hasColumn_cons_zero.mp hcolumn, rfl⟩
        · refine Or.inr ⟨n, column, hasColumn_cons_succ.mp hcolumn, ?_⟩
          rw [Nat.add_assoc, Nat.add_comm 1 n]

/-- Every offset of a text stands at a column that its line has. -/
theorem LineIndex.exists_column {x : LineIndex} {offset : Int} (hnonneg : 0 ≤ offset)
    (hlt : offset < x.length) :
    ∃ n column : Nat, HasColumn (Text.lines x.text) n column
      ∧ x.position offset = ⟨n + 1, column⟩ := by
  obtain ⟨n, hn⟩ := exists_line (x := x) hnonneg
  have hline := List.getElem?_eq_getElem hn.line
  have hnext := Text.startOf_succ hline
  obtain ⟨column, hcolumn⟩ := Int.eq_ofNat_of_zero_le (Int.sub_nonneg_of_le hn.start_le)
  refine ⟨n, column, ⟨_, hline, ?_⟩, by rw [hn.position_eq, hcolumn]⟩
  by_cases hlast : n + 1 < (Text.lines x.text).length
  · have := hn.lt_next hlast
    omega
  · -- the last line ends with the text
    have hend := Text.startOf_length x.text
    rw [show (Text.lines x.text).length = n + 1 by have := hn.line; omega, hnext] at hend
    rw [x.length_eq] at hlt
    omega

theorem unmovedSegments_isListed {names : Nat} : ∀ {lines : List String} {first : Nat},
    ∀ segments ∈ unmovedSegments first lines, ∀ s ∈ segments, s.IsListed 1 names
  | [], _, _, h => absurd h List.not_mem_nil
  | line :: rest, first, segments, h => by
      rcases List.mem_cons.mp h with rfl | h
      · intro s hs r hr
        obtain ⟨column, -, rfl⟩ := List.mem_map.mp hs
        obtain rfl := Option.some.inj hr
        exact ⟨Nat.zero_lt_one, fun name hname => by cases hname⟩
      · exact unmovedSegments_isListed segments h

theorem PositionTable.firstSource_eq {mappings : List Mapping} {m : Mapping} {label : Label}
    (h : ∀ n ∈ mappings, n.source = some label) (hm : m ∈ mappings) :
    firstSource mappings = some label := by
  cases mappings with
  | nil => cases hm
  | cons n rest => simp [firstSource, h n (List.mem_cons_self ..)]

/-- The table of such a document moves nothing, whether its source is selected by name or as the
first one. -/
theorem unmoves_of_writes {members : List (String × Json)} {source : String} {names : List String}
    {text : String}
    (hwrites : Writes members [source] names (unmovedSegments 0 (Text.lines text)))
    {selected : Option Label} (hselected : ∀ label ∈ selected, label = .string source) :
    ∃ table, PositionTable.ofDocument (.object members) selected = .ok table
      ∧ table.Unmoves (.ofText text) := by
  have hdecoded := decodeDocument_of_writes hwrites unmovedSegments_isListed
  have hsource : ∀ m ∈ segmentMappings [source] names 0 (unmovedSegments 0 (Text.lines text)),
      ∀ label ∈ m.source, ∃ s, label = .string s :=
    fun _ hm _ => segmentMappings_source hm
  refine ⟨_, PositionTable.ofDocument_eq hdecoded fun _ => isWritable_source_of_texts hsource, ?_,
    ?_⟩
  · rintro p q ⟨m, hm, label, -, -, hposition, rfl⟩
    obtain ⟨n, column, -, rfl⟩ := mem_unmovedSegments.mp hm
    exact (Option.some.inj hposition).symm
  · intro offset hnonneg hlt
    obtain ⟨n, column, hcolumn, hposition⟩ := LineIndex.exists_column hnonneg hlt
    have hmem : _ ∈ segmentMappings [source] names 0 (unmovedSegments 0 (Text.lines text)) :=
      mem_unmovedSegments.mpr ⟨n, column, hcolumn, rfl⟩
    refine ⟨_, hmem, .string source, ?_, rfl, ?_, ?_⟩
    · cases selected with
      | some label => rw [hselected label rfl]; rfl
      | none =>
          refine PositionTable.firstSource_eq (fun m hm => ?_) hmem
          obtain ⟨_, _, -, rfl⟩ := mem_unmovedSegments.mp hm
          rfl
    · rw [hposition, Nat.zero_add]
      rfl
    · rw [hposition, Nat.zero_add]
      rfl

/-- **An exact identity map is no map.** Let a document list every character of a text, line feeds
included, as going to its own place. It is accepted, and with its table every offset of the text
is translated into itself: as a start unless it is the end of the text, and as an end unless it is
the beginning. So with the text for its own minified form, an inspection gives the same report as
without a minified form, in every mode in which the definitions are ranges with something in
them. Such an inspection of a parsed program does report, unless one of the two totals is too long
to be written. -/
theorem inspect_eq_of_unmoved {members : List (String × Json)} {source : String}
    {names : List String} {text : String}
    (hwrites : Writes members [source] names (unmovedSegments 0 (Text.lines text)))
    {selected : Option Label} (hselected : ∀ label ∈ selected, label = .string source) :
    ∃ table, PositionTable.ofDocument (.object members) selected = .ok table
      ∧ (∀ offset : Int, 0 ≤ offset → offset < text.length →
        (Translator.ofTexts text (some text) (some table)).translate offset .left
          = .ok (some offset))
      ∧ (∀ offset : Int, 0 < offset → offset ≤ text.length →
        (Translator.ofTexts text (some text) (some table)).translate offset .right
          = .ok (some offset))
      ∧ (∀ (program : Program) (mode : InspectionMode),
        Inspection.InText (program.definitions mode.filter) text →
          (Inspection.report program program.size
              (.ofTexts text (some text) (some table)) mode).run.1
            = (Inspection.report program program.size (.ofTexts text none none) mode).run.1
          ∧ (text.length < 2 ^ 1023 →
            ((∃ report, (Inspection.report program program.size
                (.ofTexts text (some text) (some table)) mode).run.1 = .ok report)
              ↔ Text.isWritable
                    (occupied ((program.definitions mode.filter).map Definition.whole)) = true
                ∧ Text.isWritable program.size = true)))
      ∧ ∀ [SyntaxParser] (mode : InspectionMode) (newParser : Bool),
        (∀ program, Program.read text = .ok program →
          Inspection.InText (program.definitions mode.filter) text) →
        (inspect text (some text) (some table) mode newParser).run.1
          = (inspect text none none mode newParser).run.1 := by
  obtain ⟨table, htable, hunmoves⟩ := unmoves_of_writes hwrites hselected
  refine ⟨table, htable, ?_, ?_, ?_, ?_⟩
  · exact fun offset hnonneg hlt =>
      Translator.translate_left_of_unmoved rfl rfl hunmoves hnonneg hlt
  · exact fun offset hpos hle => Translator.translate_right_of_unmoved rfl rfl hunmoves hpos hle
  · intro program mode hin
    rw [Inspection.result_report, Inspection.result_report,
      Inspection.conclusion_of_unmoved hunmoves hin]
    exact ⟨rfl, fun hlength =>
      Inspection.exists_conclusion_iff_of_no_table rfl hlength hin program.size⟩
  · intro _ mode newParser hin
    rw [result_inspect, result_inspect]
    cases hprogram : Program.read text with
    | error e =>
        rw [Inspection.result_of_unreadable hprogram (by simp),
          Inspection.result_of_unreadable hprogram (by simp)]
    | ok program =>
        rw [Inspection.result_of_read hprogram hprogram, Inspection.result_of_read_alone hprogram,
          Inspection.conclusion_of_unmoved hunmoves (hin program hprogram)]

example : encodeMappings (unmovedSegments 0 ["ab", "", "c"]) = "AAAA,CAAC,CAAC;AACF;AACA" := by
  decide +kernel

/-- Two variables of an initializer, each on a line of its own. -/
def twoLines : String := "(function()\x7bvar a=1;\nvar b;\x7d)();"

theorem inspect_eq_of_unmoved_twoLines : ∃ members table,
    unmovedDocument "in.js" twoLines = .object members
      ∧ PositionTable.ofDocument (.object members) none = .ok table
      ∧ (Translator.ofTexts twoLines (some twoLines) (some table)).translate 20 .left
        = .ok (some 20)
      ∧ (Translator.ofTexts twoLines (some twoLines) (some table)).translate 32 .right
        = .ok (some 32)
      ∧ (inspect twoLines (some twoLines) (some table) { strict := true } true).run.1
        = (inspect twoLines none none { strict := true } true).run.1 := by
  obtain ⟨members, hdocument, hwrites⟩ :=
    encodeDocument_writes ["in.js"] [] (unmovedSegments 0 (Text.lines twoLines))
  have hfirst : ∀ label ∈ (none : Option Label), label = .string "in.js" := nofun
  obtain ⟨table, htable, hleft, hright, -, hinspect⟩ := inspect_eq_of_unmoved hwrites hfirst
  have hlength : twoLines.length = 32 := by decide +kernel
  have hread : (Program.read twoLines).map (fun program => program.definitions [])
      = .ok [⟨"a", .binding, 16, 19⟩, ⟨"b", .binding, 25, 26⟩] := by decide +kernel
  refine ⟨members, table, hdocument, htable, hleft 20 (by decide) (by rw [hlength]; decide),
    hright 32 (by decide) (by rw [hlength]; decide), hinspect _ _ fun program hprogram => ?_⟩
  rw [hprogram] at hread
  have hdefinitions : program.definitions [] = _ := Except.ok.inj hread
  rw [Inspection.InText, hdefinitions, hlength]
  decide

end BundleSize
