import BundleSize.Proofs.Modes
import BundleSize.Proofs.Overflow

/-!
# Reports as rankings

A report lists every range once, the largest first, and ranges of equal size as they
were given (`Ranks`). Only one list of lines does so (`Ranks.unique`), hence a report
tells nothing about the way in which it was sorted.

Each line is about one range alone. A report of the same ranges in another order
therefore consists of the same lines, and since sizes never increase along either, the
lines of one size take the same places in both (`Report.build_perm`).

The numbers decide whether there is a report: it takes every size to be in the range
of double precision, and the two totals to be short enough to be written
(`Report.exists_build_iff`).
-/

namespace BundleSize

/-! ## Computations on each element -/

theorem mapM_eq_ok_iff {f : α → Except ε β} : ∀ {l : List α} {bs : List β},
    l.mapM f = .ok bs ↔ List.Forall₂ (fun a b => f a = .ok b) l bs
  | [], bs => by
      rw [List.forall₂_nil_left_iff, List.mapM_nil]
      exact ⟨fun h => (Except.ok.inj h).symm, fun h => h ▸ rfl⟩
  | a :: l, bs => by
      rw [List.mapM_cons, List.forall₂_cons_left_iff]
      constructor
      · intro h
        obtain ⟨b, hb, h⟩ := bind_eq_ok h
        obtain ⟨rest, hrest, h⟩ := bind_eq_ok h
        obtain rfl := Except.ok.inj h
        exact ⟨b, rest, hb, mapM_eq_ok_iff.mp hrest, rfl⟩
      · rintro ⟨b, rest, hb, hrest, rfl⟩
        rw [hb, mapM_eq_ok_iff.mpr hrest]
        rfl

theorem mapM_perm {f : α → Except ε β} {l l' : List α} {bs : List β} (hperm : l'.Perm l)
    (h : l.mapM f = .ok bs) : ∃ bs', l'.mapM f = .ok bs' ∧ bs'.Perm bs := by
  obtain ⟨bs', hbs', hsame⟩ := List.perm_comp_forall₂ hperm (mapM_eq_ok_iff.mp h)
  exact ⟨bs', mapM_eq_ok_iff.mpr hbs', hsame⟩

theorem forall_mem_of_mapM {f : α → Except ε β} {P : β → Prop} {l : List α} {bs : List β}
    (h : l.mapM f = .ok bs) (hf : ∀ a b, f a = .ok b → P b) : ∀ b ∈ bs, P b := by
  have hboth : List.Forall₂ (fun b a => P b ∧ f a = .ok b) bs l :=
    (mapM_eq_ok_iff.mp h).flip.imp fun b a hb => ⟨hf a b hb, hb⟩
  exact ((List.forall₂_and_left bs l).mp hboth).1

/-! ## Rankings of lines -/

/-- What a report tells of a range, apart from its percentage. -/
def AttributedRange.line (r : AttributedRange) : String × DefinitionKind × Int :=
  (r.definition.name, r.definition.kind, r.size)

/-- An entry without its percentage. -/
def Entry.line (e : Entry) : String × DefinitionKind × Int := (e.name, e.kind, e.size)

/-- The lines are those of the ranges, each of them once, the largest first, and those of equal
size in the order in which the ranges were given. -/
structure Ranks (lines : List (String × DefinitionKind × Int)) (ranges : List AttributedRange) :
    Prop where
  perm : lines.Perm (ranges.map AttributedRange.line)
  descending : lines.Pairwise fun l m => m.2.2 ≤ l.2.2
  stable : ∀ n : Int, lines.filter (·.2.2 = n)
    = (ranges.filter (·.size = n)).map AttributedRange.line

theorem Ranks.unique {lines lines' : List (String × DefinitionKind × Int)}
    {ranges : List AttributedRange} (h : Ranks lines ranges) (h' : Ranks lines' ranges) :
    lines = lines' :=
  eq_of_descending h.descending h'.descending fun n => (h.stable n).trans (h'.stable n).symm

theorem ranks_rank (ranges : List AttributedRange) :
    Ranks ((rank ranges).map AttributedRange.line) ranges where
  perm := (rank_perm ranges).map _
  descending := List.pairwise_map.mpr (rank_descending ranges)
  stable n := by
    rw [List.filter_map]
    exact congrArg (List.map AttributedRange.line) (rank_filter_size ranges n)

/-- The same entries with the same sizes in each place: at most entries of one size have changed
places with each other. -/
structure SameUpToTies (entries entries' : List Entry) : Prop where
  sizes : entries.map (·.size) = entries'.map (·.size)
  ties : ∀ n : Int, (entries.filter (·.size = n)).Perm (entries'.filter (·.size = n))

/-- Between descending lists there is no other way to be a permutation. -/
theorem SameUpToTies.of_perm {entries entries' : List Entry} (hperm : entries.Perm entries')
    (h : (entries.map Entry.line).Pairwise fun l m => m.2.2 ≤ l.2.2)
    (h' : (entries'.map Entry.line).Pairwise fun l m => m.2.2 ≤ l.2.2) :
    SameUpToTies entries entries' where
  sizes := by
    have hsorted {l : List Entry} (hl : (l.map Entry.line).Pairwise fun l m => m.2.2 ≤ l.2.2) :
        (l.map (·.size)).Pairwise fun m n => n ≤ m :=
      List.pairwise_map.mpr (List.pairwise_map.mp hl)
    exact (hperm.map _).eq_of_pairwise (fun _ _ _ _ hle hge => Int.le_antisymm hge hle) (hsorted h)
      (hsorted h')
  ties n := hperm.filter _

namespace Report

variable {ranges ranges' : List AttributedRange} {total : Int} {anomalies : List Anomaly}
  {report : Report}

/-! ## Reports -/

theorem ranks_of_build (h : build ranges total anomalies = .ok report) :
    Ranks (report.entries.map Entry.line) ranges := by
  have hlines : report.entries.map Entry.line = (rank ranges).map AttributedRange.line :=
    lines_of_mapM_entryOf (fields_of_build h).1
  rw [hlines]
  exact ranks_rank ranges

theorem percentage_of_entryOf {r : AttributedRange} {e : Entry} (h : entryOf total r = .ok e) :
    Percentage.render e.size total = .ok e.percentage := by
  obtain ⟨percentage, hpercentage, h⟩ := bind_eq_ok h
  obtain rfl := Except.ok.inj h
  exact hpercentage

theorem percentages_of_build (h : build ranges total anomalies = .ok report) :
    ∀ e ∈ report.entries, Percentage.render e.size total = .ok e.percentage :=
  forall_mem_of_mapM (fields_of_build h).1 fun _ _ => percentage_of_entryOf

theorem attributed_eq_sum (h : build ranges total anomalies = .ok report) :
    report.attributed = (ranges.map AttributedRange.size).sum := by
  rw [(fields_of_build h).2.2.1, totalSize_eq_sum]
  exact (sizes_of_build h).sum_eq

theorem occupied_eq_sum : ∀ ranges : List AttributedRange,
    occupied ranges = (ranges.map AttributedRange.size).sum
  | [] => rfl
  | r :: ranges => by rw [occupied, List.map_cons, List.sum_cons, occupied_eq_sum ranges]

/-- The numbers of a report: every size has a percentage, and both totals can be written. -/
structure Presentable (ranges : List AttributedRange) (total : Int) : Prop where
  percentages : ∀ r ∈ ranges, Percentage.InRange r.size total
  attributed : Text.isWritable (ranges.map AttributedRange.size).sum = true
  total : Text.isWritable total = true

/-- There is a report exactly if its numbers can be given. -/
theorem exists_build_iff :
    (∃ report, build ranges total anomalies = .ok report) ↔ Presentable ranges total := by
  constructor
  · rintro ⟨report, h⟩
    have hwritable := writable_of_build h
    rw [hasWritableTotals, Bool.and_eq_true, attributed_eq_sum h, (fields_of_build h).2.1]
      at hwritable
    refine ⟨fun r hr => ?_, hwritable.1, hwritable.2⟩
    have hsize : r.size ∈ report.entries.map (·.size) :=
      (sizes_of_build h).mem_iff.mpr (List.mem_map_of_mem hr)
    obtain ⟨e, he, hsize⟩ := List.mem_map.mp hsize
    rw [← hsize]
    exact Percentage.exists_render_iff.mp ⟨_, percentages_of_build h e he⟩
  · rintro ⟨hpercentages, hattributed, htotal⟩
    rw [← occupied_eq_sum] at hattributed
    exact exists_build anomalies
      (fun r hr => Percentage.exists_render_iff.mpr (hpercentages r hr)) hattributed htotal

/-- The order in which the ranges are given decides about ties only. -/
theorem build_perm (hperm : ranges'.Perm ranges) (h : build ranges total anomalies = .ok report) :
    ∃ entries', build ranges' total anomalies = .ok { report with entries := entries' }
      ∧ SameUpToTies entries' report.entries := by
  obtain ⟨entries, hentries, rfl, hwritable⟩ := build_eq_ok_iff.mp h
  have hranked : (rank ranges').Perm (rank ranges) :=
    ((rank_perm ranges').trans hperm).trans (rank_perm ranges).symm
  obtain ⟨entries', hentries', hsame⟩ := mapM_perm hranked hentries
  -- of what is not an entry, only the sum is computed from the entries, and it has no order
  have hsum : totalSize entries' = totalSize entries := by
    rw [totalSize_eq_sum, totalSize_eq_sum]
    exact (hsame.map _).sum_eq
  have hbuild : build ranges' total anomalies
      = .ok ⟨entries', total, totalSize entries, anomalies⟩ :=
    build_eq_ok_iff.mpr ⟨entries', hentries', by rw [hsum], hwritable⟩
  exact ⟨entries', hbuild, .of_perm hsame (ranks_of_build hbuild).descending
    (ranks_of_build h).descending⟩

/-- **A report ranks without loss.** There is a report exactly if every size has a percentage in
the range of double precision and the sum of the sizes and the total can be written. Its entries are
the one ranking of the ranges, and the sum of their sizes is attributed. The ranges in any other
order have a report as well, in which everything is the same but the order of entries of equal
size. -/
theorem build_ranks (ranges : List AttributedRange) (total : Int) (anomalies : List Anomaly) :
    ((∃ report, build ranges total anomalies = .ok report)
        ↔ Presentable ranges total)
      ∧ ∀ report, build ranges total anomalies = .ok report →
        (∀ lines, Ranks lines ranges ↔ lines = report.entries.map Entry.line)
        ∧ report.attributed = (ranges.map AttributedRange.size).sum
        ∧ ∀ ranges', ranges'.Perm ranges → ∃ entries',
          build ranges' total anomalies = .ok { report with entries := entries' }
            ∧ SameUpToTies entries' report.entries := by
  refine ⟨exists_build_iff, fun report h => ⟨fun lines => ?_, attributed_eq_sum h, ?_⟩⟩
  · exact ⟨fun hlines => hlines.unique (ranks_of_build h), fun hlines => hlines ▸ ranks_of_build h⟩
  · exact fun ranges' hperm => build_perm hperm h

/-- Three definitions of two characters, two of them of one name, and a larger one. -/
def withTies : List AttributedRange :=
  [⟨⟨"a", .binding, 0, 1⟩, 0, 2⟩, ⟨⟨"b", .function, 1, 2⟩, 2, 5⟩, ⟨⟨"a", .function, 2, 3⟩, 5, 7⟩,
    ⟨⟨"c", .binding, 3, 4⟩, 7, 9⟩]

theorem build_ranks_withTies : ∃ report, build withTies 9 [] = .ok report
    ∧ report.entries.map Entry.line
      = [("b", .function, 3), ("a", .binding, 2), ("a", .function, 2), ("c", .binding, 2)]
    ∧ report.attributed = 9
    ∧ ∃ entries', build withTies.reverse 9 [] = .ok { report with entries := entries' }
      ∧ SameUpToTies entries' report.entries := by
  obtain ⟨hexists, hreport⟩ := build_ranks withTies 9 []
  obtain ⟨report, hbuild⟩ :=
    hexists.mpr ⟨by decide +kernel, by decide +kernel, by decide +kernel⟩
  obtain ⟨hunique, hsum, hperm⟩ := hreport report hbuild
  have hlines : (rank withTies).map AttributedRange.line
      = [("b", .function, 3), ("a", .binding, 2), ("a", .function, 2), ("c", .binding, 2)] := by cbv
  exact ⟨report, hbuild, ((hunique _).mp (ranks_rank withTies)).symm.trans hlines,
    hsum.trans (by decide), hperm _ (List.reverse_perm _)⟩

/-- A range too large for a quotient of double precision. -/
def outOfRange : AttributedRange := ⟨⟨"a", .binding, 0, 1⟩, 0, 2 ^ 1024⟩

/-- A range with a size that is too long to be written. -/
def tooLong : AttributedRange := ⟨⟨"a", .binding, 0, 1⟩, 0, (10 ^ Text.maxDigits : Nat)⟩

theorem tooLong_inRange : ∀ r ∈ [tooLong], Percentage.InRange r.size tooLong.size := by
  decide +kernel

theorem build_tooLong_ne_ok (report : Report) : build [tooLong] tooLong.size [] ≠ .ok report := by
  intro hbuild
  have htotal := (exists_build_iff.mp ⟨report, hbuild⟩).total
  exact absurd htotal (by decide +kernel)

/-- Not every list of ranges has a report, not even if every size has a percentage. -/
theorem not_build_ranks :
    (¬ ∀ (ranges : List AttributedRange) (total : Int) (anomalies : List Anomaly),
      ∃ report, build ranges total anomalies = .ok report
        ∧ Ranks (report.entries.map Entry.line) ranges)
    ∧ ¬ ∀ (ranges : List AttributedRange) (total : Int) (anomalies : List Anomaly),
      (∀ r ∈ ranges, Percentage.InRange r.size total) →
        ∃ report, build ranges total anomalies = .ok report
          ∧ Ranks (report.entries.map Entry.line) ranges := by
  constructor
  · intro h
    obtain ⟨report, hbuild, -⟩ := h [outOfRange] 1 []
    have hinRange : Percentage.InRange outOfRange.size 1 :=
      (exists_build_iff.mp ⟨report, hbuild⟩).percentages outOfRange (List.mem_singleton_self _)
    exact absurd hinRange (by decide +kernel)
  · intro h
    obtain ⟨report, hbuild, -⟩ := h [tooLong] tooLong.size [] tooLong_inRange
    exact build_tooLong_ne_ok report hbuild

end Report

end BundleSize
