import BundleSize.Proofs.Attribution
import BundleSize.Proofs.Translation
import Mathlib

/-!
# The order of attributed ranges

Under a table that keeps the order of the source, no definition is lost to
the boundary rules: it is kept unless its last character goes nowhere
(`outcome_of_monotone`). Under one that separates two definitions, the range
of the earlier one ends before that of the later one starts
(`stop_le_start_of_separates`), and lists of definitions inherit this
pair by pair. Disjoint ranges in order cannot occupy more than the text they
lie in (`occupied_le`).
-/

namespace BundleSize

namespace Translator

variable {t : Translator} {table : PositionTable}

theorem standsUpTo_of_inLine (h : ∀ p q, table.Sends p q → Text.InLine t.minified.text q) :
    t.StandsUpTo table t.minified.length :=
  fun p q hsends => LineIndex.exists_offset_of_inLine (h p q hsends)

theorem standsUpTo_of_atCharacter
    (h : ∀ p q, table.Sends p q → Text.AtCharacter t.minified.text q) :
    t.StandsUpTo table (t.minified.length - 1) := by
  intro p q hsends
  obtain ⟨offset, hnonneg, hlt, hq⟩ := LineIndex.exists_offset_of_atCharacter (h p q hsends)
  exact ⟨offset, hnonneg, by omega, hq⟩

/-! ## One definition -/

/-- Under a monotone table a definition is kept, unless its end goes nowhere. -/
theorem outcome_of_monotone (ht : t.table = some table)
    (hstands : t.StandsUpTo table t.minified.length) (hmono : table.Monotone) {d : Definition}
    (hstart : 0 ≤ d.start) (hlt : d.start < d.stop) :
    t.translate d.stop .right = .ok none ∧ t.outcome d = .ok .unmapped
      ∨ ∃ start stop, t.translate d.start .left = .ok (some start)
        ∧ t.translate d.stop .right = .ok (some stop) ∧ start ≤ stop
        ∧ t.outcome d = .ok (.kept ⟨d, start, stop⟩) := by
  have htarget : Boundary.right.target d.stop = d.stop - 1 := Boundary.target_right (by omega)
  have hleft := translate_of_standsUpTo ht hstands (Int.le_refl _) d.start .left
  rcases translate_of_standsUpTo ht hstands (Int.le_refl _) d.stop .right with
    ⟨hnone, -⟩ | ⟨q', found', hlands', -, hstop⟩
  · have houtcome : ∃ start, t.translate d.start .left = .ok start := by
      rcases hleft with ⟨h, -⟩ | ⟨_, _, -, -, h⟩ <;> exact ⟨_, h⟩
    obtain ⟨start, hstart⟩ := houtcome
    refine Or.inl ⟨hnone, ?_⟩
    rw [outcome_eq hstart hnone]
    cases start <;> rfl
  · rcases hleft with ⟨-, hnone⟩ | ⟨q, found, hlands, -, hstart'⟩
    · exact absurd hnone (find?_ne_none_of_lands hlands' hstart
        (by rw [htarget, Boundary.target]; omega))
    · have hle := hlands.left_le_right hlands' hmono hstart hlt
      refine Or.inr ⟨_, _, hstart', hstop, hle, ?_⟩
      rw [outcome_eq hstart' hstop, classify, if_pos hle]

/-- A range lies in the text if no mapping stands behind the last character. -/
theorem bounds_of_kept (ht : t.table = some table)
    (hstands : t.StandsUpTo table (t.minified.length - 1)) {d : Definition} {r : AttributedRange}
    (h : t.outcome d = .ok (.kept r)) :
    0 ≤ r.start ∧ r.start ≤ r.stop ∧ r.stop ≤ t.minified.length := by
  obtain ⟨hstart, hstop, -, hordered⟩ := ends_of_kept h
  obtain ⟨q, found, hlands, -, hleft⟩ := lands_of_translate ht hstands (by omega) hstart
  obtain ⟨q', found', -, hle, hright⟩ := lands_of_translate ht hstands (by omega) hstop
  have hnonneg := found_le_landing (t := t) d.start .left q found
  have hbound := landing_le (t := t) d.stop .right q' found'
  have := hlands.nonneg
  exact ⟨by omega, hordered, by omega⟩

/-! ## Two definitions -/

/-- A table that separates two definitions separates their ranges. -/
theorem stop_le_start_of_separates (ht : t.table = some table)
    (hstands : t.StandsUpTo table t.minified.length) {d e : Definition} {r s : AttributedRange}
    (hseparates : table.Separates (t.code.position d.stop) (t.code.position e.start))
    (hstop : 0 ≤ d.stop) (hle : d.stop ≤ e.start)
    (hr : t.outcome d = .ok (.kept r)) (hs : t.outcome e = .ok (.kept s)) :
    r.stop ≤ s.start := by
  obtain ⟨q, found, hright, -, hrstop⟩ :=
    lands_of_translate ht hstands (Int.le_refl _) (ends_of_kept hr).2.1
  obtain ⟨q', found', hleft, -, hsstart⟩ :=
    lands_of_translate ht hstands (Int.le_refl _) (ends_of_kept hs).1
  rw [hrstop, hsstart]
  exact hright.right_le_left hleft hseparates hstop hle

end Translator

/-! ## Lists of ranges -/

theorem occupied_nonneg : ∀ {ranges : List AttributedRange},
    (∀ r ∈ ranges, r.start ≤ r.stop) → 0 ≤ occupied ranges
  | [], _ => Int.le_refl 0
  | r :: ranges, h => by
      have hfirst := h r (List.mem_cons_self ..)
      have ih := occupied_nonneg fun s hs => h s (List.mem_cons_of_mem _ hs)
      rw [occupied, AttributedRange.size]
      omega

/-- Disjoint ranges in order occupy no more than the stretch that they lie in. -/
theorem occupied_le {hi : Int} : ∀ {ranges : List AttributedRange} {lo : Int}, lo ≤ hi →
    (∀ r ∈ ranges, lo ≤ r.start ∧ r.start ≤ r.stop ∧ r.stop ≤ hi) →
      ranges.Pairwise (fun r s => r.stop ≤ s.start) → occupied ranges ≤ hi - lo
  | [], lo, hle, _, _ => by
      rw [occupied]
      omega
  | r :: ranges, lo, _, hbounds, hdisjoint => by
      obtain ⟨hlo, hordered, hhi⟩ := hbounds r (List.mem_cons_self ..)
      rw [List.pairwise_cons] at hdisjoint
      have ih := occupied_le hhi
        (fun s hs => ⟨hdisjoint.1 s hs, (hbounds s (List.mem_cons_of_mem _ hs)).2⟩) hdisjoint.2
      rw [occupied, AttributedRange.size]
      omega

theorem definition_sublist (t : Translator) (ds : List Definition) :
    ((ds.filterMap t.range?).map (·.definition)).Sublist ds := by
  induction ds with
  | nil => exact List.Sublist.refl _
  | cons d ds ih =>
      rw [List.filterMap_cons]
      cases hrange : t.range? d with
      | none => exact ih.cons d
      | some r =>
          have hdefinition := (Translator.ends_of_kept (Translator.outcome_of_range? hrange)).2.2.1
          rw [List.map_cons, hdefinition]
          exact ih.cons_cons d

variable {t : Translator} {table : PositionTable}

section

variable {ds : List Definition}

theorem bounds_of_mem_ranges (ht : t.table = some table)
    (hstands : t.StandsUpTo table (t.minified.length - 1)) {r : AttributedRange}
    (hr : r ∈ ds.filterMap t.range?) :
    0 ≤ r.start ∧ r.start ≤ r.stop ∧ r.stop ≤ t.minified.length := by
  obtain ⟨d, -, hrange⟩ := List.mem_filterMap.mp hr
  exact Translator.bounds_of_kept ht hstands (Translator.outcome_of_range? hrange)

/-- The ranges of definitions that a table keeps apart are disjoint. -/
theorem pairwise_ranges_of_separates (ht : t.table = some table)
    (hstands : t.StandsUpTo table t.minified.length) (hnonneg : ∀ d ∈ ds, 0 ≤ d.stop)
    (hordered : ds.Pairwise fun d e => d.stop ≤ e.start)
    (hseparates : ds.Pairwise fun d e =>
      table.Separates (t.code.position d.stop) (t.code.position e.start)) :
    (ds.filterMap t.range?).Pairwise fun r s => r.stop ≤ s.start := by
  refine List.pairwise_filterMap.mpr ((hordered.and hseparates).imp_of_mem ?_)
  intro d e hd _ hde r hr s hs
  exact Translator.stop_le_start_of_separates ht hstands hde.2 (hnonneg d hd) hde.1
    (Translator.outcome_of_range? hr) (Translator.outcome_of_range? hs)

end

/-! ## Attribution under monotone tables -/

/-- **No live definition is discarded.** Under a monotone table into the lines of the minified
text, attribution never takes a definition for an alias or an anomaly, whatever was attributed
before. It is kept with a range whose ends are in order, or its last character goes nowhere; and
where the end goes somewhere, so does the start. -/
theorem assign_of_monotone (ht : t.table = some table)
    (hinside : ∀ p q, table.Sends p q → Text.InLine t.minified.text q) (hmono : table.Monotone)
    {strict : Bool} {a : Attributor} (ha : a.Reached t strict) {d : Definition}
    (hstart : 0 ≤ d.start) (hlt : d.start < d.stop) :
    (a.assign d).state.aliased = a.aliased
      ∧ (a.assign d).state.anomalies = a.anomalies
      ∧ (t.translate d.stop .right = .ok none
          ∧ (a.assign d).result = .ok none
          ∧ (a.assign d).state.unmapped = a.unmapped + 1
        ∨ ∃ r : AttributedRange, t.translate d.start .left = .ok (some r.start)
          ∧ t.translate d.stop .right = .ok (some r.stop)
          ∧ (a.assign d).result = .ok (some r)
          ∧ r.definition = d ∧ 0 ≤ r.size
          ∧ (a.assign d).state.unmapped = a.unmapped) := by
  rcases Translator.outcome_of_monotone ht (Translator.standsUpTo_of_inLine hinside) hmono hstart
    hlt with ⟨hnone, houtcome⟩ | ⟨start, stop, hleft, hright, hle, houtcome⟩
  · obtain ⟨hresult, hunmapped, haliased, hanomalies⟩ :=
      Attributor.assign_of_unmapped ha.serves houtcome
    exact ⟨haliased, hanomalies, Or.inl ⟨hnone, hresult, hunmapped⟩⟩
  · obtain ⟨hresult, hunmapped, haliased, hanomalies⟩ :=
      Attributor.assign_of_kept ha.serves houtcome
    have hsize : 0 ≤ AttributedRange.size ⟨d, start, stop⟩ := Int.sub_nonneg_of_le hle
    exact ⟨haliased, hanomalies,
      Or.inr ⟨⟨d, start, stop⟩, hleft, hright, hresult, rfl, hsize, hunmapped⟩⟩

/-- Two source positions go to the end of the first line. -/
def tiedTable : PositionTable :=
  .ofMappings
    [⟨⟨1, 0⟩, some (.string "0"), some ⟨1, 0⟩, none⟩,
      ⟨⟨1, 2⟩, some (.string "0"), some ⟨1, 3⟩, none⟩,
      ⟨⟨1, 2⟩, some (.string "0"), some ⟨2, 0⟩, none⟩,
      ⟨⟨2, 1⟩, some (.string "0"), some ⟨2, 4⟩, none⟩] none

def tied : Translator := .ofTexts "a = 1\nb = 2" (some "a=\nb") (some tiedTable)

theorem assign_of_monotone_tied :
    (∀ p q, tiedTable.Sends p q → Text.InLine tied.minified.text q) ∧ tiedTable.Monotone
      ∧ ((Attributor.start tied true).assign ⟨"a", .binding, 0, 5⟩).result
        = .ok (some ⟨⟨"a", .binding, 0, 5⟩, 0, 2⟩) := by
  have hinside : ∀ p q, tiedTable.Sends p q → Text.InLine tied.minified.text q :=
    PositionTable.forall_sends.mpr (by decide)
  have hmono : tiedTable.Monotone := by decide
  have hleft : tied.translate 0 .left = .ok (some 0) := by cbv
  have hright : tied.translate 5 .right = .ok (some 2) := by cbv
  have ha : Attributor.Reached tied true (Attributor.start tied true) := .start
  refine ⟨hinside, hmono, ?_⟩
  obtain ⟨-, -, ⟨hnone, -⟩ | ⟨r, hstart, hstop, hresult, hdefinition, -⟩⟩ :=
    assign_of_monotone (d := ⟨"a", .binding, 0, 5⟩) rfl hinside hmono ha (by decide) (by decide)
  · rw [hright] at hnone
    cases hnone
  · rw [hleft] at hstart
    rw [hright] at hstop
    cases r
    cases hstart
    cases hstop
    cases hdefinition
    exact hresult

theorem outcome_of_assign {a : Attributor} (ha : a.Serves t) {d : Definition}
    {r : AttributedRange} (hresult : (a.assign d).result = .ok (some r)) :
    t.outcome d = .ok (.kept r) :=
  Translator.outcome_of_range? (Attributor.range?_of_assign_result ha hresult).symm

/-- **Disjoint definitions keep disjoint ranges.** Under a strictly monotone table onto characters
of the minified text, two definitions of which one ends before the other starts occupy ranges of
the text in the same order, and a run over a list of such definitions gives disjoint ranges in the
order of the list, which together are no longer than the text. -/
theorem assign_disjoint_of_strictlyMonotone (ht : t.table = some table)
    (hinside : ∀ p q, table.Sends p q → Text.AtCharacter t.minified.text q)
    (hstrict : table.StrictlyMonotone) (strict : Bool) :
    (∀ a b d e r s, Attributor.Reached t strict a → Attributor.Reached t strict b →
        0 ≤ d.start → d.start < d.stop → d.stop ≤ e.start → e.start < e.stop →
        (a.assign d).result = .ok (some r) → (b.assign e).result = .ok (some s) →
        r.stop ≤ s.start
          ∧ (0 ≤ r.start ∧ r.start ≤ r.stop ∧ r.stop ≤ t.minified.length)
          ∧ (0 ≤ s.start ∧ s.start ≤ s.stop ∧ s.stop ≤ t.minified.length))
      ∧ ∀ a ds, Attributor.Reached t strict a →
        (∀ d ∈ ds, 0 ≤ d.start ∧ d.start < d.stop) →
        ds.Pairwise (fun d e => d.stop ≤ e.start) →
        ∃ ranges, (a.assignAll ds).1 = .ok ranges
          ∧ (ranges.map (·.definition)).Sublist ds
          ∧ ranges.Pairwise (fun r s => r.stop ≤ s.start)
          ∧ (∀ r ∈ ranges, 0 ≤ r.start ∧ r.start ≤ r.stop ∧ r.stop ≤ t.minified.length)
          ∧ occupied ranges ≤ t.minified.length := by
  have hstands := Translator.standsUpTo_of_inLine fun p q h => (hinside p q h).inLine
  have hstands' := Translator.standsUpTo_of_atCharacter hinside
  refine ⟨fun a b d e r s ha hb hd hlt hle _ hr hs => ?_, fun a ds ha hds hdisjoint => ?_⟩
  · have hr := outcome_of_assign ha.serves hr
    have hs := outcome_of_assign hb.serves hs
    have hseparate := Translator.stop_le_start_of_separates ht hstands (hstrict.separates _ _)
      (by omega) hle hr hs
    exact ⟨hseparate, Translator.bounds_of_kept ht hstands' hr,
      Translator.bounds_of_kept ht hstands' hs⟩
  · have hsettled : ∀ d ∈ ds, Attributor.Settled t d := by
      intro d hd
      rcases Translator.outcome_of_monotone ht hstands hstrict.monotone (hds d hd).1 (hds d hd).2
        with ⟨-, houtcome⟩ | ⟨_, _, -, -, -, houtcome⟩
      · exact Or.inl houtcome
      · exact Or.inr ⟨_, houtcome⟩
    have hbounds : ∀ r ∈ ds.filterMap t.range?,
        0 ≤ r.start ∧ r.start ≤ r.stop ∧ r.stop ≤ t.minified.length :=
      fun r hr => bounds_of_mem_ranges ht hstands' hr
    have hranges : (ds.filterMap t.range?).Pairwise fun r s => r.stop ≤ s.start :=
      pairwise_ranges_of_separates ht hstands (fun d hd => by have := hds d hd; omega) hdisjoint
        (hdisjoint.imp fun _ => hstrict.separates _ _)
    have hoccupied := occupied_le (Int.natCast_nonneg t.minified.length) hbounds hranges
    exact ⟨_, (Attributor.assignAll_of_settled ha.serves hsettled).1, definition_sublist t ds,
      hranges, hbounds, by omega⟩

/-- Every character that starts a token goes to a place of its own. -/
def apartTable : PositionTable :=
  .ofMappings
    [⟨⟨1, 0⟩, some (.string "0"), some ⟨1, 0⟩, none⟩,
      ⟨⟨1, 4⟩, some (.string "0"), some ⟨1, 4⟩, none⟩,
      ⟨⟨1, 6⟩, some (.string "0"), some ⟨1, 6⟩, none⟩,
      ⟨⟨1, 8⟩, some (.string "0"), some ⟨2, 4⟩, none⟩,
      ⟨⟨1, 10⟩, some (.string "0"), some ⟨2, 6⟩, none⟩] none

def apart : Translator :=
  .ofTexts "var a=1;\nvar b=2;" (some "var a=1,b=2;") (some apartTable)

theorem assign_disjoint_of_strictlyMonotone_apart :
    let d : Definition := ⟨"a", .binding, 4, 7⟩
    let e : Definition := ⟨"b", .binding, 13, 16⟩
    let a := Attributor.start apart true
    (∀ p q, apartTable.Sends p q → Text.AtCharacter apart.minified.text q)
      ∧ apartTable.StrictlyMonotone
      ∧ (a.assign d).result = .ok (some ⟨d, 4, 7⟩)
      ∧ ((a.assign d).state.assign e).result = .ok (some ⟨e, 8, 11⟩)
      ∧ (7 : Int) ≤ 8
      ∧ ∃ ranges, (a.assignAll [d, e]).1 = .ok ranges
        ∧ ranges.Pairwise (fun r s => r.stop ≤ s.start)
        ∧ occupied ranges ≤ 12 := by
  intro d e a
  have hinside : ∀ p q, apartTable.Sends p q → Text.AtCharacter apart.minified.text q :=
    PositionTable.forall_sends.mpr (by decide)
  have hstrict : apartTable.StrictlyMonotone := by decide
  have ha : Attributor.Reached apart true a := .start
  have hd : (a.assign d).result = .ok (some ⟨d, 4, 7⟩) :=
    (Attributor.assign_of_kept ha.serves (by cbv)).1
  have he : ((a.assign d).state.assign e).result = .ok (some ⟨e, 8, 11⟩) :=
    (Attributor.assign_of_kept (ha.assign d).serves (by cbv)).1
  have hlength : apart.minified.length = 12 := by cbv
  obtain ⟨htwo, hrun⟩ := assign_disjoint_of_strictlyMonotone rfl hinside hstrict true
  obtain ⟨hle, -, -⟩ := htwo a _ d e _ _ ha (ha.assign d) (by decide) (by decide) (by decide)
    (by decide) hd he
  obtain ⟨ranges, hranges, -, hdisjoint, -, hoccupied⟩ :=
    hrun a [d, e] ha (by decide) (by decide)
  rw [hlength] at hoccupied
  exact ⟨hinside, hstrict, hd, he, hle, ranges, hranges, hdisjoint, hoccupied⟩

end BundleSize
