import BundleSize.Proofs.Diagnostics
import Mathlib

/-!
# Definitions that were eliminated

A minifier that removes a definition leaves no mapping at any of its
characters. The start of the definition and its last character are then
looked up on the two ends of a stretch without mappings, and both lookups
find the first mapping behind the stretch, or none (`Nearest.eq_of_skips`).
That mapping is not the last character's own, so the exclusive end is not
moved past it. Hence the two ends of the range are one offset, whatever the
table does with the order of the source.

The definition is then dropped as removed, or kept with nothing
(`Translator.outcome_of_skips`), and in the total of a report it does not
count (`Report.attributed_of_build_filter`).
-/

namespace BundleSize

namespace PositionTable

variable {t : PositionTable} {first last : Position}

/-- No mapping of the selected source stands between the two source positions or at one of them. -/
def Skips (t : PositionTable) (first last : Position) : Prop :=
  ∀ p q, t.Sends p q → p.before first = true ∨ last.before p = true

instance (t : PositionTable) (first last : Position) : Decidable (t.Skips first last) :=
  decidable_of_iff _ forall_sends.symm

/-- What is found from the beginning of a skipped stretch stands behind the stretch. -/
theorem Nearest.before_of_skips {m : Mapping} {q : Position} (h : t.Nearest first m q)
    (hskips : t.Skips first last) : last.before q = true := by
  rcases hskips q m.generated h.sends with hbefore | hbehind
  · exact absurd hbefore (Position.not_before.mpr h.upTo)
  · exact hbehind

/-- From both ends of a skipped stretch the same source position and the same generated one are
found. -/
theorem Nearest.eq_of_skips {m m' : Mapping} {q q' : Position} (h : t.Nearest first m q)
    (h' : t.Nearest last m' q') (hskips : t.Skips first last)
    (hle : first.upTo last = true) : q = q' ∧ m.generated = m'.generated := by
  rcases h.mono h' hle with hlt | heq
  · -- the lookup from the last position could only have passed over what the first one found
    have hbehind := Position.upTo_of_before (h.before_of_skips hskips)
    rcases h'.least h.sends hbehind with hgt | ⟨rfl, -⟩
    · exact absurd hlt (Position.not_before.mpr (Position.upTo_of_before hgt))
    · exact absurd hlt (Position.not_before.mpr (Position.upTo_refl _))
  · exact heq

end PositionTable

namespace Translator

variable {t : Translator} {table : PositionTable}

/-- A definition without mappings is removed, or occupies nothing in front of the first mapping
behind it. -/
theorem outcome_of_skips (ht : t.table = some table)
    (hproper : ∀ p q, table.Sends p q → q.Proper) {d : Definition} (hstart : 0 ≤ d.start)
    (hlt : d.start < d.stop)
    (hskips : table.Skips (t.code.position d.start) (t.code.position (d.stop - 1))) :
    (∀ p q, table.Sends p q → p.before (t.code.position d.start) = true)
        ∧ t.outcome d = .ok .unmapped
      ∨ (∃ p q, table.Sends p q ∧ (t.code.position d.start).upTo p = true)
        ∧ ∃ place, t.outcome d = .ok (.kept ⟨d, place, place⟩) := by
  have hle : (t.code.position d.start).upTo (t.code.position (d.stop - 1)) = true :=
    (LineIndex.position_upTo_iff hstart (by omega)).mpr (by omega)
  have htarget : Boundary.right.target d.stop = d.stop - 1 := Boundary.target_right (by omega)
  cases hfind : table.find? (t.code.position d.start) .leastUpper with
  | none =>
      have hbefore : ∀ p q, table.Sends p q → p.before (t.code.position d.start) = true :=
        fun p q hsends => PositionTable.before_of_find?_eq_none hfind hsends
      have hstop : table.find? (t.code.position (d.stop - 1)) .leastUpper = none := by
        refine Option.eq_none_iff_forall_ne_some.mpr fun m' hfind' => ?_
        obtain ⟨q', hnearest'⟩ := PositionTable.nearest_of_find? hfind'
        exact Position.not_before.mpr (Position.upTo_trans hle hnearest'.upTo)
          (hbefore q' m'.generated hnearest'.sends)
      refine Or.inl ⟨hbefore, outcome_eq (translate_of_find?_eq_none ht hfind)
        (translate_of_find?_eq_none ht (by rw [htarget]; exact hstop))⟩
  | some m =>
      obtain ⟨q, hnearest⟩ := PositionTable.nearest_of_find? hfind
      have hbehind := hnearest.before_of_skips hskips
      have hstop : table.find? (t.code.position (d.stop - 1)) .leastUpper ≠ none := fun hnone =>
        Position.not_before.mpr (Position.upTo_of_before hbehind)
          (PositionTable.before_of_find?_eq_none hnone hnearest.sends)
      obtain ⟨m', hfind'⟩ := Option.ne_none_iff_exists'.mp hstop
      obtain ⟨q', hnearest'⟩ := PositionTable.nearest_of_find? hfind'
      obtain ⟨rfl, hgenerated⟩ := hnearest.eq_of_skips hnearest' hskips hle
      obtain ⟨place, hplace, -, -⟩ :=
        t.minified.offset_of_proper (hproper q m.generated hnearest.sends)
      have hleft : t.translate d.start .left = .ok (some place) := by
        rw [translate_of_find? (b := .left) ht hfind hplace, if_neg fun h => h.1 rfl]
      have hinexact : m'.sourcePosition ≠ some (t.code.position (d.stop - 1)) := by
        intro hown
        obtain rfl := Option.some.inj (hnearest'.position.symm.trans hown)
        exact Position.not_before.mpr (Position.upTo_refl _) hbehind
      have hright : t.translate d.stop .right = .ok (some place) := by
        rw [hgenerated] at hplace
        rw [← htarget] at hfind' hinexact
        rw [translate_of_find? ht hfind' hplace, if_neg fun h => hinexact h.2]
      refine Or.inr ⟨⟨q, m.generated, hnearest.sends, hnearest.upTo⟩, place, ?_⟩
      rw [outcome_eq hleft hright, classify, if_pos (Int.le_refl place)]

end Translator

/-! ## The total of a report -/

/-- Definitions that occupy nothing can be left out. -/
theorem occupied_filter {t : Translator} {keeps : Definition → Bool} :
    ∀ {ds : List Definition},
      (∀ d ∈ ds, keeps d = false → ∀ r ∈ t.range? d, r.size = 0) →
        occupied ((ds.filter keeps).filterMap t.range?) = occupied (ds.filterMap t.range?)
  | [], _ => rfl
  | d :: ds, hnothing => by
      have ih := occupied_filter fun e he => hnothing e (List.mem_cons_of_mem _ he)
      cases hkeeps : keeps d with
      | true =>
          rw [List.filter_cons_of_pos hkeeps, List.filterMap_cons, List.filterMap_cons]
          cases t.range? d with
          | none => exact ih
          | some r => simp only [occupied, ih]
      | false =>
          have hsize := hnothing d (List.mem_cons_self ..) hkeeps
          rw [List.filter_cons_of_neg (by simp [hkeeps]), List.filterMap_cons, ih]
          cases hrange : t.range? d with
          | none => rfl
          | some r => simp only [occupied, hsize r hrange, Int.zero_add]

/-- What is attributed in total is what the definitions occupy that are not known to be empty. -/
theorem Report.attributed_of_build_filter {t : Translator} {ds : List Definition} {total : Int}
    {anomalies : List Anomaly} {report : Report} {keeps : Definition → Bool}
    (hbuild : build (ds.filterMap t.range?) total anomalies = .ok report)
    (hnothing : ∀ d ∈ ds, keeps d = false → ∀ r ∈ t.range? d, r.size = 0) :
    report.attributed = occupied ((ds.filter keeps).filterMap t.range?) := by
  rw [attributed_of_build hbuild, occupied_filter hnothing]

/-! ## Attribution -/

variable {t : Translator} {table : PositionTable}

/-- **An eliminated definition never gets size.** Let the table, in whatever order, lead into lines
and columns that a text can have, and let it have no mapping from the first to the last character of
a definition. In every state attribution drops the definition as removed, namely when no mapping
stands behind it, or keeps it with an empty range; it is never taken for an alias or an anomaly. No
report counts it: what is attributed in total is what the other definitions occupy. -/
theorem assign_of_skips (ht : t.table = some table)
    (hproper : ∀ p q, table.Sends p q → q.Proper) {d : Definition} (hstart : 0 ≤ d.start)
    (hlt : d.start < d.stop)
    (hskips : table.Skips (t.code.position d.start) (t.code.position (d.stop - 1))) :
    (∀ strict a, Attributor.Reached t strict a →
      (a.assign d).state.aliased = a.aliased
        ∧ (a.assign d).state.anomalies = a.anomalies
        ∧ ((∀ p q, table.Sends p q → p.before (t.code.position d.start) = true)
            ∧ (a.assign d).result = .ok none
            ∧ (a.assign d).state.unmapped = a.unmapped + 1
          ∨ (∃ p q, table.Sends p q ∧ (t.code.position d.start).upTo p = true)
            ∧ ∃ r : AttributedRange, (a.assign d).result = .ok (some r)
              ∧ r.definition = d ∧ r.start = r.stop ∧ r.size = 0
              ∧ (a.assign d).state.unmapped = a.unmapped))
      ∧ ∀ (program : Program) (size : Int) (mode : InspectionMode) (report : Report),
        (Inspection.report program size t mode).run.1 = .ok report →
          report.attributed
            = occupied (((program.definitions mode.filter).filter (· ≠ d)).filterMap t.range?) := by
  have houtcome := Translator.outcome_of_skips ht hproper hstart hlt hskips
  constructor
  · intro strict a ha
    rcases houtcome with ⟨hbefore, hremoved⟩ | ⟨hbehind, place, hkept⟩
    · obtain ⟨hresult, hunmapped, haliased, hanomalies⟩ :=
        Attributor.assign_of_unmapped ha.serves hremoved
      exact ⟨haliased, hanomalies, Or.inl ⟨hbefore, hresult, hunmapped⟩⟩
    · obtain ⟨hresult, hunmapped, haliased, hanomalies⟩ :=
        Attributor.assign_of_kept ha.serves hkept
      exact ⟨haliased, hanomalies,
        Or.inr ⟨hbehind, ⟨d, place, place⟩, hresult, rfl, rfl, Int.sub_self place, hunmapped⟩⟩
  · intro program size mode report hreport
    rw [Inspection.result_report] at hreport
    obtain ⟨anomalies, hbuild⟩ := Inspection.build_of_conclusion hreport
    refine Report.attributed_of_build_filter hbuild fun e _ he r hr => ?_
    obtain rfl : e = d := by simpa using he
    have hkept := Translator.outcome_of_range? hr
    rcases houtcome with ⟨-, hremoved⟩ | ⟨-, place, hempty⟩
    · rw [hremoved] at hkept
      cases hkept
    · rw [hempty] at hkept
      obtain rfl := Outcome.kept.inj (Except.ok.inj hkept)
      exact Int.sub_self place

/-- The middle one of three assignments is gone and the other two have changed places. -/
def swappedTable : PositionTable :=
  .ofMappings
    [⟨⟨1, 4⟩, some (.string "0"), some ⟨1, 0⟩, none⟩,
      ⟨⟨1, 6⟩, some (.string "0"), some ⟨1, 2⟩, none⟩,
      ⟨⟨1, 0⟩, some (.string "0"), some ⟨1, 8⟩, none⟩,
      ⟨⟨1, 2⟩, some (.string "0"), some ⟨1, 10⟩, none⟩] none

def swapped : Translator := .ofTexts "a=1;b=2;c=3;d" (some "c=3;a=1") (some swappedTable)

theorem assign_of_skips_swapped :
    let a := Attributor.start swapped true
    let gone : Definition := ⟨"b", .binding, 4, 7⟩
    let last : Definition := ⟨"d", .binding, 12, 13⟩
    ¬swappedTable.Monotone
      ∧ (∃ r, (a.assign gone).result = .ok (some r) ∧ r.size = 0)
      ∧ (a.assign last).result = .ok none ∧ (a.assign last).state.unmapped = 1 := by
  intro a gone last
  have hproper : ∀ p q, swappedTable.Sends p q → q.Proper :=
    PositionTable.forall_sends.mpr (by decide)
  have ha : Attributor.Reached swapped true a := .start
  have hgone : swappedTable.Skips (swapped.code.position 4) (swapped.code.position 6) := by
    rw [show swapped.code.position 4 = ⟨1, 4⟩ by cbv, show swapped.code.position 6 = ⟨1, 6⟩ by cbv]
    decide
  have hlast : swappedTable.Skips (swapped.code.position 12) (swapped.code.position 12) := by
    rw [show swapped.code.position 12 = ⟨1, 12⟩ by cbv]
    decide
  obtain ⟨hassign, -⟩ := assign_of_skips (d := gone) rfl hproper (by decide) (by decide) hgone
  obtain ⟨hassign', -⟩ := assign_of_skips (d := last) rfl hproper (by decide) (by decide) hlast
  refine ⟨by decide, ?_, ?_⟩
  · obtain ⟨-, -, ⟨hbefore, -⟩ | ⟨-, r, hresult, -, -, hsize, -⟩⟩ := hassign true a ha
    · have hsends : swappedTable.Sends ⟨1, 8⟩ ⟨1, 0⟩ :=
        PositionTable.sends_iff_mem_pairs.mpr (by decide)
      have hfirst := hbefore _ _ hsends
      rw [show swapped.code.position gone.start = ⟨1, 4⟩ by cbv] at hfirst
      exact absurd hfirst (by decide)
    · exact ⟨r, hresult, hsize⟩
  · obtain ⟨-, -, ⟨-, hresult, hunmapped⟩ | ⟨⟨p, q, hsends, hupTo⟩, -⟩⟩ := hassign' true a ha
    · exact ⟨hresult, hunmapped⟩
    · rw [show swapped.code.position last.start = ⟨1, 12⟩ by cbv] at hupTo
      have hbefore : ∀ p q, swappedTable.Sends p q → p.before ⟨1, 12⟩ = true :=
        PositionTable.forall_sends.mpr (by decide)
      exact absurd (hbefore p q hsends) (Position.not_before.mpr hupTo)

end BundleSize
