import BundleSize.Proofs.Characters
import BundleSize.Proofs.Modes
import BundleSize.Proofs.Unmoved

/-!
# Where extracted definitions lie

Definitions come from nodes at different depths of the tree: declarations are
parts of an initializer's body, declarators are parts of declarations, and the
body is reached through any number of parentheses. All of these are nodes below
one statement of the program (`mem_nodes_of_initializerBody?`), so in a tree
that fits its text they lie in that statement, and what lies in different
statements is as far apart as the statements are. The definitions are therefore
ranges in the order of the text, one behind the other
(`Program.definitions_pairwise`), and inside the program
(`Program.definitions_inside`).

Without a table each definition is kept with its own range, and ranges that lie
one behind the other occupy no more than the program together
(`definitions_fill_program`).
-/

namespace BundleSize

open Node

/-- The body of an initializer is a node below its statement. -/
theorem mem_nodes_of_initializerBody? {statement body : Node}
    (h : initializerBody? statement = some body) : body ∈ statement.nodes := by
  unfold initializerBody? at h
  split at h
  · obtain ⟨expression, hexpression, h⟩ := Option.bind_eq_some_iff.mp h
    obtain ⟨call, hcall, h⟩ := Option.bind_eq_some_iff.mp h
    split at h
    · obtain ⟨inner, hinner, h⟩ := Option.bind_eq_some_iff.mp h
      obtain ⟨callee, hcallee, h⟩ := Option.bind_eq_some_iff.mp h
      split at h
      · have hnamed : expression ∈ statement.namedChildren := List.mem_of_head? hexpression
        have hchild : expression ∈ statement.children := List.mem_of_mem_filter hnamed
        have hbody : body ∈ inner.nodes :=
          mem_nodes_trans (mem_nodes_of_inParentheses hcallee) (mem_nodes_of_child? h)
        have hinner : inner ∈ expression.nodes :=
          mem_nodes_trans (mem_nodes_of_inParentheses hcall) (mem_nodes_of_child? hinner)
        exact mem_nodes_trans (mem_nodes_of_mem_children hchild) (mem_nodes_trans hinner hbody)
      · cases h
    · cases h
  · cases h

/-- The statements in the body of the function that a statement calls, if it is an initializer. -/
def bodyStatements (statement : Node) : List Node :=
  match initializerBody? statement with
  | some body => body.namedChildren
  | none => []

theorem mem_nodes_of_mem_bodyStatements {statement n : Node} (h : n ∈ bodyStatements statement) :
    n ∈ statement.nodes := by
  unfold bodyStatements at h
  split at h
  · rename_i body hbody
    exact mem_nodes_trans (mem_nodes_of_initializerBody? hbody)
      (mem_nodes_of_mem_children (List.mem_of_mem_filter h))
  · cases h

namespace Program

variable {p : Program} {n : Node} {d : Definition}

/-- The definition has the range of a node below `n`. -/
def MadeBelow (p : Program) (n : Node) (d : Definition) : Prop :=
  ∃ m ∈ n.nodes, d.start = (p.range m).1 ∧ d.stop = (p.range m).2

theorem eq_of_functionDefinition? (h : p.functionDefinition? n = some d) :
    d.start = (p.range n).1 ∧ d.stop = (p.range n).2 := by
  unfold functionDefinition? at h
  split at h
  · obtain ⟨name, -, rfl⟩ := Option.map_eq_some_iff.mp h
    exact ⟨rfl, rfl⟩
  · cases h

theorem eq_of_declaratorDefinition? (h : p.declaratorDefinition? n = some d) :
    d.start = (p.range n).1 ∧ d.stop = (p.range n).2 := by
  unfold declaratorDefinition? at h
  split at h
  · split at h
    · split at h
      · obtain rfl := Option.some.inj h
        exact ⟨rfl, rfl⟩
      · cases h
    · cases h
  · cases h

theorem madeBelow_of_mem (h : d ∈ p.statementDefinitions n) : p.MadeBelow n d := by
  unfold statementDefinitions at h
  split at h
  · obtain ⟨declarator, hdeclarator, h⟩ := List.mem_filterMap.mp h
    have hchild : declarator ∈ n.children := List.mem_of_mem_filter hdeclarator
    exact ⟨declarator, mem_nodes_of_mem_children hchild, eq_of_declaratorDefinition? h⟩
  · exact ⟨n, self_mem_nodes n, eq_of_functionDefinition? (Option.mem_toList.mp h)⟩

/-! ## Ranges in order -/

variable {m : Node}

/-- A node that ends before another begins does so in characters too. -/
theorem range_apart (hn : n.LaidOut p.text) (hm : m.LaidOut p.text)
    (h : n.stop ≤ m.start.offset) : (p.range n).2 ≤ (p.range m).1 :=
  p.index.toChar_le hn.stops hm.starts h

/-- A definition lies in the range of the node that it is made below, in characters. -/
theorem MadeBelow.within (hn : n.Fits p.text) (h : p.MadeBelow n d) :
    (p.range n).1 ≤ d.start ∧ d.start ≤ d.stop ∧ d.stop ≤ (p.range n).2 := by
  obtain ⟨m, hm, hstart, hstop⟩ := h
  obtain ⟨hleft, hright⟩ := hn.within hm
  have hnode := hn n (self_mem_nodes n)
  have hmade := hn m hm
  have h₁ := p.index.toChar_le hnode.starts hmade.starts hleft
  have h₂ := p.index.toChar_le hmade.starts hmade.stops hmade.start_le_stop
  have h₃ := p.index.toChar_le hmade.stops hnode.stops hright
  rw [hstart, hstop]
  exact ⟨Int.ofNat_le.mpr h₁, Int.ofNat_le.mpr h₂, Int.ofNat_le.mpr h₃⟩

/-- Definitions made below nodes that stand apart are apart. -/
theorem MadeBelow.apart {e : Definition} (hn : n.Fits p.text) (hm : m.Fits p.text)
    (hapart : n.stop ≤ m.start.offset) (hd : p.MadeBelow n d) (he : p.MadeBelow m e) :
    d.stop ≤ e.start := by
  have hrange := range_apart (hn n (self_mem_nodes n)) (hm m (self_mem_nodes m)) hapart
  exact (hd.within hn).2.2.trans ((Int.ofNat_le.mpr hrange).trans (he.within hm).1)

/-- The named parts of a node stand one behind the other. -/
theorem pairwise_namedChildren (hn : n.Fits p.text) :
    n.namedChildren.Pairwise fun c c' => c.stop ≤ c'.start.offset :=
  (hn n (self_mem_nodes n)).ordered.filter _

theorem fits_of_mem_namedChildren {c : Node} (hn : n.Fits p.text) (h : c ∈ n.namedChildren) :
    c.Fits p.text :=
  hn.of_mem (mem_nodes_of_mem_children (List.mem_of_mem_filter h))

/-- The definitions of one statement lie one behind the other. -/
theorem statementDefinitions_pairwise (hn : n.Fits p.text) :
    (p.statementDefinitions n).Pairwise fun d e => d.stop ≤ e.start := by
  unfold statementDefinitions
  split
  · refine List.pairwise_filterMap.mpr ?_
    refine (pairwise_namedChildren hn).imp_of_mem fun {c c'} hc hc' hapart d hd e he => ?_
    have hmade : p.MadeBelow c d := ⟨c, self_mem_nodes c, eq_of_declaratorDefinition? hd⟩
    have hmade' : p.MadeBelow c' e := ⟨c', self_mem_nodes c', eq_of_declaratorDefinition? he⟩
    exact hmade.apart (fits_of_mem_namedChildren hn hc) (fits_of_mem_namedChildren hn hc') hapart
      hmade'
  · cases p.functionDefinition? n with
    | none => exact List.Pairwise.nil
    | some d => exact List.pairwise_singleton _ d

/-- The statements of initializers, one initializer after the other. -/
theorem initializerStatements_eq (p : Program) :
    p.initializerStatements = p.root.namedChildren.flatMap bodyStatements :=
  rfl

theorem mem_nodes_of_mem_initializerStatements (h : n ∈ p.initializerStatements) :
    n ∈ p.root.nodes := by
  obtain ⟨statement, hstatement, h⟩ := List.mem_flatMap.mp (p.initializerStatements_eq ▸ h)
  exact mem_nodes_trans (mem_nodes_of_mem_children (List.mem_of_mem_filter hstatement))
    (mem_nodes_of_mem_bodyStatements h)

theorem initializerStatements_pairwise (hp : p.root.Fits p.text) :
    p.initializerStatements.Pairwise fun n m => n.stop ≤ m.start.offset := by
  rw [initializerStatements_eq]
  refine List.pairwise_flatMap.mpr ⟨fun statement hstatement => ?_, ?_⟩
  · unfold bodyStatements
    split
    · rename_i body hbody
      have hfits := (fits_of_mem_namedChildren hp hstatement).of_mem
        (mem_nodes_of_initializerBody? hbody)
      exact pairwise_namedChildren hfits
    · exact List.Pairwise.nil
  · -- what stands in two statements is as far apart as the statements
    refine (pairwise_namedChildren hp).imp_of_mem fun {s s'} hs hs' hapart n hn m hm => ?_
    have hleft := ((fits_of_mem_namedChildren hp hs).within (mem_nodes_of_mem_bodyStatements hn)).2
    have hright :=
      ((fits_of_mem_namedChildren hp hs').within (mem_nodes_of_mem_bodyStatements hm)).1
    exact (hleft.trans hapart).trans hright

/-- Definitions lie one behind the other, in the order of the text. -/
theorem definitions_pairwise (hp : p.root.Fits p.text) (filter : NameFilter) :
    (p.definitions filter).Pairwise fun d e => d.stop ≤ e.start := by
  refine List.Pairwise.filter _ (List.pairwise_flatMap.mpr ⟨fun n hn => ?_, ?_⟩)
  · exact statementDefinitions_pairwise (hp.of_mem (mem_nodes_of_mem_initializerStatements hn))
  · refine (initializerStatements_pairwise hp).imp_of_mem fun {n m} hn hm hapart d hd e he => ?_
    exact (madeBelow_of_mem hd).apart (hp.of_mem (mem_nodes_of_mem_initializerStatements hn))
      (hp.of_mem (mem_nodes_of_mem_initializerStatements hm)) hapart (madeBelow_of_mem he)

/-- Definitions lie inside the program. -/
theorem definitions_inside (hp : p.root.Fits p.text) {filter : NameFilter}
    (hd : d ∈ p.definitions filter) :
    p.extent.1 ≤ d.start ∧ d.start ≤ d.stop ∧ d.stop ≤ p.extent.2 := by
  obtain ⟨n, hn, hd⟩ := List.mem_flatMap.mp (List.mem_of_mem_filter hd)
  obtain ⟨m, hm, hrange⟩ := madeBelow_of_mem hd
  have hmade : p.MadeBelow p.root d :=
    ⟨m, mem_nodes_trans (mem_nodes_of_mem_initializerStatements hn) hm, hrange⟩
  exact hmade.within hp

end Program

theorem Program.of_ofTree {text : String} {root : Node} {p : Program}
    (h : ofTree text root = .ok p) : p.root = root ∧ p.text = text := by
  simp only [ofTree] at h
  split at h
  · split at h <;> cases h
  · obtain rfl := Except.ok.inj h
    exact ⟨rfl, rfl⟩

/-! ## Reports without a table -/

/-- Definitions that lie one behind the other in a program occupy no more than the program. -/
theorem Program.occupied_definitions {p : Program} (hp : p.root.Fits p.text) (filter : NameFilter) :
    0 ≤ occupied ((p.definitions filter).map Definition.whole)
      ∧ occupied ((p.definitions filter).map Definition.whole) ≤ p.size := by
  have hroot := hp p.root (self_mem_nodes p.root)
  have hextent := p.index.toChar_le hroot.starts hroot.stops hroot.start_le_stop
  have hbounds : ∀ r ∈ (p.definitions filter).map Definition.whole,
      (p.extent.1 : Int) ≤ r.start ∧ r.start ≤ r.stop ∧ r.stop ≤ p.extent.2 := by
    intro r hr
    obtain ⟨d, hd, rfl⟩ := List.mem_map.mp hr
    exact definitions_inside hp hd
  have hdisjoint : ((p.definitions filter).map Definition.whole).Pairwise
      fun r s => r.stop ≤ s.start :=
    List.pairwise_map.mpr (definitions_pairwise hp filter)
  exact ⟨occupied_nonneg fun r hr => (hbounds r hr).2.1,
    occupied_le (Int.ofNat_le.mpr hextent) hbounds hdisjoint⟩

/-- The program is a part of the text, so its size can be written where the text's can. -/
theorem Program.isWritable_size {p : Program} (hp : p.root.Fits p.text)
    (hlength : p.text.length < 10 ^ Text.maxDigits) : Text.isWritable p.size = true := by
  have hroot := hp p.root (self_mem_nodes p.root)
  have hextent := p.index.toChar_le hroot.starts hroot.stops hroot.start_le_stop
  obtain ⟨n, hn, hstop⟩ := hroot.stops
  have hend : p.extent.2 ≤ p.text.length := by
    rw [extent, range, hstop]
    exact (p.index.toChar_byteLength hn).trans_le hn
  have hstart : p.extent.1 ≤ p.extent.2 := hextent
  have hle : p.size.natAbs ≤ p.text.length := by
    rw [size]
    omega
  have hdigits := Nat.length_toDigits_le_iff (n := p.size.natAbs) (by decide : 1 < 10)
    (by decide : 0 < Text.maxDigits)
  exact decide_eq_true (hdigits.mpr (hle.trans_lt hlength))

/-- Without a table, what is reported of a program is all its definitions with their own sizes. -/
theorem Inspection.conclusion_of_fits {p : Program} {t : Translator} (ht : t.table = none)
    (hp : p.root.Fits p.text) (hlength : p.text.length < 10 ^ Text.maxDigits)
    (mode : InspectionMode) :
    ∃ report, conclusion p p.size t mode = .ok report
      ∧ Report.build ((p.definitions mode.filter).map Definition.whole) p.size [] = .ok report := by
  have hordered : ∀ d ∈ p.definitions mode.filter, d.start ≤ d.stop :=
    fun d hd => (Program.definitions_inside hp hd).2.1
  have hpercentages : ∀ r ∈ (p.definitions mode.filter).map Definition.whole,
      ∃ percentage, Percentage.render r.size p.size = .ok percentage := by
    intro r hr
    obtain ⟨d, hd, rfl⟩ := List.mem_map.mp hr
    obtain ⟨hstart, hle, hstop⟩ := Program.definitions_inside hp hd
    refine Percentage.exists_render_of_le ?_ ?_ <;>
      simp only [AttributedRange.size, Definition.whole, Program.size] <;> omega
  have hsize := Program.isWritable_size hp hlength
  obtain ⟨hnonneg, hle⟩ := Program.occupied_definitions hp mode.filter
  obtain ⟨report, hbuild⟩ :=
    Report.exists_build [] hpercentages (Text.isWritable_of_le hnonneg hle hsize) hsize
  refine ⟨report, ?_, hbuild⟩
  rw [conclusion_of_no_table ht hordered, hbuild]
  rfl

/-- **Definitions are disjoint ranges of the program, so they cover at most all of it.** Let the
tree of a text fit the text. Whatever names a filter keeps, the definitions are ranges inside the
program, in the order of the text and one behind the other. An inspection without a table, in
either mode, then ends with a report that lists every one of them with its own size, and together
they are no larger than the program. The text is short enough for its length to be written. -/
theorem definitions_fill_program {text : String} {root : Node} {program : Program}
    (hprogram : Program.ofTree text root = .ok program) (hfits : root.Fits text)
    (mode : InspectionMode) :
    (program.definitions mode.filter).Pairwise (fun d e => d.stop ≤ e.start)
      ∧ (∀ d ∈ program.definitions mode.filter,
        program.extent.1 ≤ d.start ∧ d.start ≤ d.stop ∧ d.stop ≤ program.extent.2)
      ∧ (text.length < 10 ^ Text.maxDigits → ∃ report : Report,
        (Inspection.report program program.size (.ofTexts text none none) mode).run.1 = .ok report
          ∧ (∀ [SyntaxParser], root = SyntaxParser.tree text → ∀ newParser,
            (inspect text none none mode newParser).run.1 = .ok report)
          ∧ (report.entries.map fun e => (e.name, e.kind, e.size)).Perm
            ((program.definitions mode.filter).map fun d => (d.name, d.kind, d.stop - d.start))
          ∧ report.anomalies = [] ∧ report.total = program.size
          ∧ report.attributed = (report.entries.map (·.size)).sum
          ∧ 0 ≤ report.attributed ∧ report.attributed ≤ report.total) := by
  obtain ⟨rfl, rfl⟩ := Program.of_ofTree hprogram
  refine ⟨Program.definitions_pairwise hfits mode.filter,
    fun d hd => Program.definitions_inside hfits hd, fun hlength => ?_⟩
  obtain ⟨report, hconclusion, hbuild⟩ :=
    Inspection.conclusion_of_fits (t := .ofTexts program.text none none) rfl hfits hlength mode
  obtain ⟨-, htotal, hattributed, hanomalies⟩ := Report.fields_of_build hbuild
  rw [totalSize_eq_sum] at hattributed
  have hlines := Report.lines_of_build hbuild
  rw [List.map_map] at hlines
  have hoccupied := Program.occupied_definitions hfits mode.filter
  rw [← Report.attributed_of_build hbuild, ← htotal] at hoccupied
  refine ⟨report, ?_, ?_, hlines, hanomalies, htotal, hattributed, hoccupied⟩
  · rw [Inspection.result_report, hconclusion]
  · intro _ htree newParser
    have hread : Program.read program.text = .ok program := by rw [Program.read, ← htree, hprogram]
    rw [result_inspect, Inspection.result_of_read_alone hread, hconclusion]

/-- Two initializers, the second one behind more parentheses, and characters of several bytes. -/
def twoInitializers : String :=
  "(function(){var é=😀, b;})();((function(){function f(){var g;}})());"

theorem definitions_fill_program_twoInitializers : ∃ (program : Program) (report : Report),
    Program.ofTree twoInitializers (Script.tree twoInitializers) = .ok program
      ∧ (Script.tree twoInitializers).Fits twoInitializers
      ∧ program.definitions []
        = [⟨"é", .binding, 16, 19⟩, ⟨"b", .binding, 21, 22⟩, ⟨"f", .function, 41, 61⟩]
      ∧ (inspect twoInitializers none none {} true).run.1 = .ok report
      ∧ (report.entries.map fun e => (e.name, e.kind, e.size)).Perm
        [("é", .binding, 3), ("b", .binding, 1), ("f", .function, 20)]
      ∧ report.total = 67 ∧ report.attributed ≤ report.total := by
  have hread : (Program.read twoInitializers).map (fun p => (p.definitions [], p.extent))
      = .ok ([⟨"é", .binding, 16, 19⟩, ⟨"b", .binding, 21, 22⟩, ⟨"f", .function, 41, 61⟩],
        (0, 67)) := by
    decide +kernel
  obtain ⟨program, hprogram, hfound⟩ := map_eq_ok hread
  obtain ⟨hdefinitions, hextent⟩ := Prod.mk.inj hfound
  have hfits : (Script.tree twoInitializers).Fits twoInitializers := by decide +kernel
  have hlength : twoInitializers.length < 10 ^ Text.maxDigits := by decide +kernel
  obtain ⟨-, -, hreports⟩ := definitions_fill_program hprogram hfits {}
  obtain ⟨report, -, hinspect, hlines, -, htotal, -, -, hle⟩ := hreports hlength
  have hsize : program.size = 67 := by
    rw [Program.size, hextent]
    rfl
  rw [hdefinitions] at hlines
  exact ⟨program, report, hprogram, hfits, hdefinitions, hinspect rfl true, hlines,
    htotal.trans hsize, hle⟩

end BundleSize
