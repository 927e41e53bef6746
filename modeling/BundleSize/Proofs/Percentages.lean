import BundleSize.Proofs.RankedReports

/-!
# Percentages and sizes

What is printed of two sizes is ordered as the sizes are, since each of the three
roundings keeps the order (`Percentage.rounded_mono`). Nothing and the whole are
rounded exactly, and so every percentage of a part lies between 0.000% and
100.000%. Up to the last rounding the error stays far below a thousandth of a per
cent; the last one accounts for all but 10^-9 of it
(`Percentage.abs_rounded_sub_lt`).

All this is said of the text of a percentage, by the number of thousandths that its
digits write (`Percentage.shown?`).
-/

namespace BundleSize

namespace Percentage

open Binary64

/-! ## The thousandths of a quotient -/

theorem nearest_mem {q : Rat} (hq : 0 ≤ q) (h : q ≤ 1) : 0 ≤ nearest q ∧ nearest q ≤ 1 := by
  have hone : nearest 1 = 1 := by simpa using nearest_zpow (e := 0) (by decide)
  exact ⟨nearest_nonneg hq, (nearest_mono hq h).trans_eq hone⟩

/-- Thousandths of a per cent as they are computed from the exact quotient. -/
def rounded (quotient : Rat) : Int := roundEven (nearest (nearest quotient * 100) * 1000)

theorem rounded_zero : rounded 0 = 0 := by decide +kernel

theorem rounded_one : rounded 1 = 100000 := by decide +kernel

theorem rounded_mono {q r : Rat} (hq : 0 ≤ q) (h : q ≤ r) : rounded q ≤ rounded r := by
  have hquotient := nearest_mono hq h
  have hnonneg := nearest_nonneg hq
  have hpercent : nearest (nearest q * 100) ≤ nearest (nearest r * 100) :=
    nearest_mono (by linarith) (by linarith)
  exact roundEven_mono (by linarith)

theorem rounded_bounds {q : Rat} (hq : 0 ≤ q) (h : q ≤ 1) : 0 ≤ rounded q ∧ rounded q ≤ 100000 :=
  ⟨rounded_zero ▸ rounded_mono le_rfl hq, rounded_one ▸ rounded_mono hq h⟩

/-- Half a thousandth is lost in the last rounding, next to nothing in those before it. -/
theorem abs_rounded_sub_lt {q : Rat} (hq : 0 ≤ q) (h : q ≤ 1) :
    |(rounded q : Rat) - 100000 * q| < 1 / 2 + 1 / 10 ^ 9 := by
  obtain ⟨hnonneg, hunit⟩ := nearest_mem hq h
  have hquotient : |nearest q - q| ≤ 2 / 2 ^ 53 :=
    (abs_nearest_sub_le hq).trans (div_le_div_of_nonneg_right (by linarith) (by positivity))
  have hpercent : |nearest (nearest q * 100) - nearest q * 100| ≤ 101 / 2 ^ 53 :=
    (abs_nearest_sub_le (by linarith)).trans
      (div_le_div_of_nonneg_right (by linarith) (by positivity))
  have hlast : |(rounded q : Rat) - nearest (nearest q * 100) * 1000| ≤ 1 / 2 :=
    abs_roundEven_sub_le _
  rw [abs_le] at hquotient hpercent hlast
  rw [abs_lt]
  constructor <;> linarith

theorem thousandths_eq {part whole : Nat} (hwhole : 0 < whole) (h : part ≤ whole) :
    thousandths part whole = .ok (some (rounded (part / whole)).toNat) := by
  have hpos : (0 : Rat) < whole := by exact_mod_cast hwhole
  have hquotient : (0 : Rat) ≤ (part / whole : Rat) := by positivity
  have hone : (part / whole : Rat) ≤ 1 := (div_le_one hpos).mpr (by exact_mod_cast h)
  obtain ⟨hnonneg, hunit⟩ := nearest_mem hquotient hone
  unfold thousandths
  rw [Rat.mkRat_eq_div, Int.cast_natCast, nearest?_of_le hquotient hone (by decide +kernel)]
  simp only
  rw [nearest?_of_le (by linarith) (by linarith : _ ≤ (100 : Rat)) (by decide +kernel)]
  rfl

/-! ## What a percentage shows -/

/-- The number of thousandths of a per cent that a text shows: some digits, a point, three digits
more and a percent sign, and nothing else. -/
def shown? (text : String) : Option Nat :=
  let whole := text.toList.takeWhile Char.isDigit
  match text.toList.dropWhile Char.isDigit with
  | ['.', a, b, c, '%'] =>
    if whole ≠ [] ∧ [a, b, c].all Char.isDigit then
      some (Nat.ofDigitChars 10 (whole ++ [a, b, c]) 0)
    else none
  | _ => none

theorem shown?_of_digits {text : String} {whole : List Char} {a b c : Char}
    (h : text.toList = whole ++ ['.', a, b, c, '%']) (hne : whole ≠ [])
    (hdigits : ∀ d ∈ whole ++ [a, b, c], d.isDigit = true) :
    shown? text = some (Nat.ofDigitChars 10 (whole ++ [a, b, c]) 0) := by
  have hwhole : ∀ d ∈ whole, d.isDigit = true := fun d hd => hdigits d (by simp [hd])
  have hthree : [a, b, c].all Char.isDigit = true :=
    List.all_eq_true.mpr fun d hd => hdigits d (List.mem_append_right _ hd)
  have hpoint : Char.isDigit '.' = false := rfl
  unfold shown?
  rw [h, List.takeWhile_append_of_pos hwhole, List.dropWhile_append_of_pos hwhole,
    List.takeWhile_cons_of_neg (by simp [hpoint]), List.dropWhile_cons_of_neg (by simp [hpoint]),
    List.append_nil]
  exact if_pos ⟨hne, hthree⟩

/-- The digits that stand behind the point. -/
def fractionDigits (n : Nat) : List Char :=
  List.replicate (3 - (Nat.toDigits 10 (n % 1000)).length) '0' ++ Nat.toDigits 10 (n % 1000)

theorem toList_decimals (n : Nat) :
    (decimals n).toList = Nat.toDigits 10 (n / 1000) ++ '.' :: fractionDigits n := by
  simp [decimals, fractionDigits, Nat.repr_eq_ofList_toDigits]

theorem length_fractionDigits (n : Nat) : (fractionDigits n).length = 3 := by
  have hfits : (Nat.toDigits 10 (n % 1000)).length ≤ 3 :=
    (Nat.length_toDigits_le_iff (by decide) (by decide)).mpr (Nat.mod_lt _ (by decide))
  rw [fractionDigits, List.length_append, List.length_replicate]
  omega

theorem isDigit_of_mem_fractionDigits {n : Nat} {d : Char} (h : d ∈ fractionDigits n) :
    d.isDigit = true := by
  rcases List.mem_append.mp h with h | h
  · rw [List.eq_of_mem_replicate h]
    rfl
  · exact Nat.isDigit_of_mem_toDigits (by decide) (by decide) h

/-- Without the point, the digits write the number of thousandths. -/
theorem ofDigitChars_decimals (n : Nat) :
    Nat.ofDigitChars 10 (Nat.toDigits 10 (n / 1000) ++ fractionDigits n) 0 = n := by
  have hfraction : Nat.ofDigitChars 10 (fractionDigits n) 0 = n % 1000 := by
    rw [fractionDigits, Nat.ofDigitChars_append, Nat.ofDigitChars_replicate_zero, Nat.mul_zero,
      Nat.ofDigitChars_ten_toDigits]
  rw [Nat.ofDigitChars_append, Nat.ofDigitChars_ten_toDigits, Nat.ofDigitChars_eq_ofDigitChars_zero,
    length_fractionDigits, hfraction]
  omega

theorem shown?_decimals (n : Nat) : shown? (decimals n ++ "%") = some n := by
  obtain ⟨a, b, c, hthree⟩ := List.length_eq_three.mp (length_fractionDigits n)
  have htext : (decimals n ++ "%").toList = Nat.toDigits 10 (n / 1000) ++ ['.', a, b, c, '%'] := by
    rw [String.toList_append, toList_decimals, hthree]
    simp
  rw [shown?_of_digits htext Nat.toDigits_ne_nil, ← hthree, ofDigitChars_decimals]
  intro d hd
  rcases List.mem_append.mp hd with hd | hd
  · exact Nat.isDigit_of_mem_toDigits (by decide) (by decide) hd
  · exact isDigit_of_mem_fractionDigits (hthree ▸ hd)

example : shown? "12.500%" = some 12500 := by decide +kernel

/-! ## The percentage of a part -/

variable {value value' of : Int}

/-- The number of thousandths that is printed for `value` of `of`. -/
def printed? (value of : Int) : Option Nat := (render value of).toOption.bind shown?

theorem printed?_of_render {text : String} (h : render value of = .ok text) :
    printed? value of = shown? text := by
  rw [printed?, h]
  rfl

theorem render_eq (hof : 0 < of) (hnonneg : 0 ≤ value) (hle : value ≤ of) :
    render value of = .ok (decimals (rounded (value / of)).toNat ++ "%") := by
  obtain ⟨part, rfl⟩ := Int.eq_ofNat_of_zero_le hnonneg
  obtain ⟨whole, rfl⟩ := Int.eq_ofNat_of_zero_le hof.le
  have hthousandths := thousandths_eq (by omega : 0 < whole) (by omega : part ≤ whole)
  unfold render
  rw [if_neg (by omega), Int.natAbs_natCast, Int.toNat_natCast, hthousandths]
  rw [if_neg (by omega), Int.cast_natCast, Int.cast_natCast]
  show Except.ok ("" ++ decimals _ ++ "%") = Except.ok _
  rw [String.empty_append]

/-- Of a whole that is nothing the only part is nothing, and the quotient by zero is zero. -/
theorem printed?_eq (hnonneg : 0 ≤ value) (hle : value ≤ of) :
    printed? value of = some (rounded (value / of)).toNat := by
  rcases (hnonneg.trans hle).eq_or_lt with rfl | hof
  · obtain rfl : value = 0 := by omega
    decide +kernel
  · rw [printed?_of_render (render_eq hof hnonneg hle), shown?_decimals]

theorem quotient_mem (hnonneg : 0 ≤ value) (hle : value ≤ of) :
    0 ≤ (value / of : Rat) ∧ (value / of : Rat) ≤ 1 := by
  have hvalue : (0 : Rat) ≤ value := by exact_mod_cast hnonneg
  have hof : (value : Rat) ≤ of := by exact_mod_cast hle
  exact ⟨div_nonneg hvalue (hvalue.trans hof), div_le_one_of_le₀ hof (hvalue.trans hof)⟩

theorem rounded_le_rounded (hnonneg : 0 ≤ value) (h : value ≤ value') (hle : value' ≤ of) :
    (rounded (value / of)).toNat ≤ (rounded (value' / of)).toNat := by
  have hof : (0 : Rat) ≤ of := by exact_mod_cast hnonneg.trans (h.trans hle)
  have hvalues : (value : Rat) ≤ value' := by exact_mod_cast h
  exact Int.toNat_le_toNat (rounded_mono (quotient_mem hnonneg (h.trans hle)).1
    (div_le_div_of_nonneg_right hvalues hof))

theorem rounded_le (hnonneg : 0 ≤ value) (hle : value ≤ of) :
    (rounded (value / of)).toNat ≤ 100000 := by
  obtain ⟨hlow, hhigh⟩ := quotient_mem hnonneg hle
  exact Int.toNat_le.mpr (rounded_bounds hlow hhigh).2

theorem printed?_whole (hof : 0 < of) : printed? of of = some 100000 := by
  have hne : (of : Rat) ≠ 0 := by exact_mod_cast hof.ne'
  rw [printed?_eq hof.le le_rfl, div_self hne, rounded_one]
  rfl

theorem abs_printed_sub_lt (hnonneg : 0 ≤ value) (hle : value ≤ of) :
    |((rounded (value / of)).toNat : Rat) - 100000 * value / of| < 1 / 2 + 1 / 10 ^ 9 := by
  obtain ⟨hlow, hhigh⟩ := quotient_mem hnonneg hle
  have hcast : ((rounded (value / of)).toNat : Rat) = rounded (value / of) := by
    rw [← Int.cast_natCast, Int.toNat_of_nonneg (rounded_bounds hlow hhigh).1]
  rw [hcast, mul_div_assoc]
  exact abs_rounded_sub_lt hlow hhigh

end Percentage

namespace Report

variable {ranges : List AttributedRange} {total : Int} {anomalies : List Anomaly} {report : Report}

theorem size_mem_of_build (hsizes : ∀ r ∈ ranges, 0 ≤ r.size ∧ r.size ≤ total)
    (h : build ranges total anomalies = .ok report) {e : Entry} (he : e ∈ report.entries) :
    0 ≤ e.size ∧ e.size ≤ total := by
  have hsize : e.size ∈ ranges.map AttributedRange.size :=
    (sizes_of_build h).mem_iff.mp (List.mem_map_of_mem he)
  obtain ⟨r, hr, hsize⟩ := List.mem_map.mp hsize
  exact hsize ▸ hsizes r hr

/-- An entry shows what is printed for its size. -/
theorem shown?_of_build (hsizes : ∀ r ∈ ranges, 0 ≤ r.size ∧ r.size ≤ total)
    (h : build ranges total anomalies = .ok report) {e : Entry} (he : e ∈ report.entries) :
    Percentage.shown? e.percentage = Percentage.printed? e.size total
      ∧ Percentage.printed? e.size total
        = some (Percentage.rounded (e.size / total)).toNat := by
  obtain ⟨hnonneg, hle⟩ := size_mem_of_build hsizes h he
  exact ⟨(Percentage.printed?_of_render (percentages_of_build h e he)).symm,
    Percentage.printed?_eq hnonneg hle⟩

/-- Sizes never increase down the ranking, so neither do the numbers that are shown of them. -/
theorem pairwise_rounded_of_build (hsizes : ∀ r ∈ ranges, 0 ≤ r.size ∧ r.size ≤ total)
    (h : build ranges total anomalies = .ok report) :
    report.entries.Pairwise fun e f => (Percentage.rounded (f.size / total)).toNat
      ≤ (Percentage.rounded (e.size / total)).toNat := by
  have hdescending : report.entries.Pairwise fun e f => f.size ≤ e.size :=
    List.pairwise_map.mp (ranks_of_build h).descending
  refine hdescending.imp_of_mem fun {e f} he hf hle => ?_
  exact Percentage.rounded_le_rounded (size_mem_of_build hsizes h hf).1 hle
    (size_mem_of_build hsizes h he).2

theorem exists_coverage (hsizes : ∀ r ∈ ranges, 0 ≤ r.size)
    (h : build ranges total anomalies = .ok report) (hle : report.attributed ≤ total) :
    ∃ coverage n, report.coverage = .ok coverage ∧ Percentage.shown? coverage = some n
      ∧ n ≤ 100000 := by
  have hnonneg : 0 ≤ report.attributed := by
    rw [attributed_of_build h]
    exact occupied_nonneg fun r hr => Int.sub_nonneg.mp (hsizes r hr)
  obtain ⟨coverage, hcoverage⟩ := Percentage.exists_render_of_le hnonneg hle
  refine ⟨coverage, _, ?_, ?_, Percentage.rounded_le hnonneg hle⟩
  · rw [Report.coverage, (fields_of_build h).2.1, hcoverage]
  · rw [← Percentage.printed?_of_render hcoverage, Percentage.printed?_eq hnonneg hle]

end Report

/-- **Percentages agree with sizes.** A whole is shown as 100.000%; of two parts the greater one is
never shown as less; what is shown lies between nothing and the whole, and within half a thousandth
and 10^-9 of the exact percentage. Hence, if no size is negative or greater than the total, there is
a report as soon as the totals can be written. In it the entries show what is printed for their
sizes, and these percentages never increase and never exceed 100.000%; nor does that of the coverage
unless more is attributed than the total. -/
theorem percentages_agree_with_sizes :
    (∀ of : Int, 0 < of →
      Percentage.printed? of of = some 100000
        ∧ ∀ value value' : Int, 0 ≤ value → value ≤ value' → value' ≤ of → ∃ n n' : Nat,
          Percentage.printed? value of = some n ∧ Percentage.printed? value' of = some n'
            ∧ n ≤ n' ∧ n' ≤ 100000 ∧ |(n : Rat) - 100000 * value / of| < 1 / 2 + 1 / 10 ^ 9)
      ∧ ∀ (ranges : List AttributedRange) (total : Int) (anomalies : List Anomaly),
        (∀ r ∈ ranges, 0 ≤ r.size ∧ r.size ≤ total) →
          ((∃ report, Report.build ranges total anomalies = .ok report)
            ↔ Text.isWritable (ranges.map AttributedRange.size).sum = true
              ∧ Text.isWritable total = true)
          ∧ ∀ report, Report.build ranges total anomalies = .ok report → ∃ shown : List Nat,
            report.entries.map (fun e => Percentage.shown? e.percentage) = shown.map some
            ∧ report.entries.map (fun e => Percentage.printed? e.size total) = shown.map some
            ∧ shown.Pairwise (fun m n => n ≤ m) ∧ (∀ n ∈ shown, n ≤ 100000)
            ∧ (report.attributed ≤ total → ∃ coverage n, report.coverage = .ok coverage
              ∧ Percentage.shown? coverage = some n ∧ n ≤ 100000) := by
  constructor
  · intro of hof
    refine ⟨Percentage.printed?_whole hof, fun value value' hnonneg h hle => ?_⟩
    exact ⟨_, _, Percentage.printed?_eq hnonneg (h.trans hle),
      Percentage.printed?_eq (hnonneg.trans h) hle, Percentage.rounded_le_rounded hnonneg h hle,
      Percentage.rounded_le (hnonneg.trans h) hle,
      Percentage.abs_printed_sub_lt hnonneg (h.trans hle)⟩
  · intro ranges total anomalies hsizes
    have hrange : ∀ r ∈ ranges, Percentage.InRange r.size total := fun r hr =>
      Percentage.exists_render_iff.mp
        (Percentage.exists_render_of_le (hsizes r hr).1 (hsizes r hr).2)
    refine ⟨Report.exists_build_iff.trans ⟨fun h => ⟨h.attributed, h.total⟩,
      fun h => ⟨hrange, h.1, h.2⟩⟩, fun report h => ?_⟩
    have hshown := fun e he => Report.shown?_of_build hsizes h (e := e) he
    refine ⟨report.entries.map fun e => (Percentage.rounded (e.size / total)).toNat, ?_, ?_, ?_, ?_,
      Report.exists_coverage (fun r hr => (hsizes r hr).1) h⟩
    · rw [List.map_map]
      exact List.map_congr_left fun e he => (hshown e he).1.trans (hshown e he).2
    · rw [List.map_map]
      exact List.map_congr_left fun e he => (hshown e he).2
    · exact List.pairwise_map.mpr (Report.pairwise_rounded_of_build hsizes h)
    · rw [List.forall_mem_map]
      intro e he
      obtain ⟨hnonneg, hle⟩ := Report.size_mem_of_build hsizes h he
      exact Percentage.rounded_le hnonneg hle

/-- Thirds, of which neither is exact, and a report in which three sizes are the same. -/
theorem percentages_agree_with_sizes_thirds :
    (Percentage.printed? 1 3 = some 33333 ∧ Percentage.printed? 2 3 = some 66667
        ∧ |((33333 : Nat) : Rat) - 100000 * (1 : Int) / (3 : Int)| < 1 / 2 + 1 / 10 ^ 9)
      ∧ (∀ r ∈ Report.withTies, 0 ≤ r.size ∧ r.size ≤ 9) ∧ ∃ (report : Report) (shown : List Nat),
        Report.build Report.withTies 9 [] = .ok report
          ∧ report.entries.map (fun e => Percentage.shown? e.percentage) = shown.map some
          ∧ shown.Pairwise (fun m n => n ≤ m) ∧ ∀ n ∈ shown, n ≤ 100000 := by
  obtain ⟨hparts, hreports⟩ := percentages_agree_with_sizes
  have hsizes : ∀ r ∈ Report.withTies, 0 ≤ r.size ∧ r.size ≤ 9 := by decide
  obtain ⟨-, hparts⟩ := hparts 3 (by decide)
  obtain ⟨n, n', hn, hn', -, -, herror⟩ := hparts 1 2 (by decide) (by decide) (by decide)
  obtain rfl : 33333 = n := Option.some.inj (Eq.trans (by decide +kernel) hn)
  obtain rfl : 66667 = n' := Option.some.inj (Eq.trans (by decide +kernel) hn')
  obtain ⟨hexists, hshows⟩ := hreports Report.withTies 9 [] hsizes
  obtain ⟨report, hbuild⟩ := hexists.mpr ⟨by decide +kernel, by decide +kernel⟩
  obtain ⟨shown, hshown, -, hdescending, hle, -⟩ := hshows report hbuild
  exact ⟨⟨hn, hn', herror⟩, hsizes, report, shown, hbuild, hshown, hdescending, hle⟩

end BundleSize
