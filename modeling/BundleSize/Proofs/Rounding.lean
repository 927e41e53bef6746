import BundleSize.Proofs.Nearest
import BundleSize.Report.Percentage

/-!
# Percentages in range

A percentage is refused only when its quotient is out of the range of double
precision. Rounding keeps the order of numbers, so whatever is at most half of the
range's end, a power of two, stays in range (`Binary64.exists_nearest?`), and a part
that small has a percentage of every whole (`Percentage.exists_render`). No text
that is kept in memory is longer. A part that is no larger than its whole has a
percentage in any case (`Percentage.exists_render_of_le`).
-/

namespace BundleSize

namespace Binary64

theorem nearest?_of_le {x bound : Rat} (h : 0 ≤ x) (hle : x ≤ bound)
    (hbound : nearest bound < powerOfTwo 1024) : nearest? x = some (nearest x) :=
  if_pos ((nearest_mono h hle).trans_lt hbound)

theorem exists_nearest? {x : Rat} (h : 0 ≤ x) (hle : x ≤ 2 ^ 1023) :
    ∃ y, nearest? x = some y := by
  have hrange : nearest (2 ^ (1023 : Int)) < powerOfTwo 1024 := by
    rw [nearest_zpow (by decide), powerOfTwo_eq]
    exact zpow_lt_zpow_right₀ one_lt_two (by decide)
  exact ⟨nearest x, nearest?_of_le h (by exact_mod_cast hle) hrange⟩

end Binary64

namespace Percentage

/-- A quotient by a whole is no larger than the part. -/
theorem quotient_bounds (part whole : Nat) (h : 0 < whole) :
    0 ≤ mkRat part whole ∧ mkRat part whole ≤ part := by
  have hwhole : (1 : Rat) ≤ whole := by exact_mod_cast h
  rw [Rat.mkRat_eq_div, Int.cast_natCast]
  exact ⟨by positivity, div_le_self (by positivity) hwhole⟩

theorem exists_render_of_quotient {value of : Int}
    (h : 0 < of → mkRat value.natAbs of.toNat ≤ 2 ^ 1023) : ∃ text, render value of = .ok text := by
  unfold render
  split
  · exact ⟨_, rfl⟩
  · have hnonneg := (quotient_bounds value.natAbs of.toNat (by omega)).1
    obtain ⟨quotient, hquotient⟩ := Binary64.exists_nearest? hnonneg (h (by omega))
    simp only [thousandths, hquotient]
    exact ⟨_, rfl⟩

/-- A part of magnitude up to 2 ^ 1023 has a percentage. -/
theorem exists_render {value : Int} (of : Int) (h : value.natAbs ≤ 2 ^ 1023) :
    ∃ text, render value of = .ok text := by
  refine exists_render_of_quotient fun hpos => ?_
  have hle := (quotient_bounds value.natAbs of.toNat (by omega)).2
  have hpart : (value.natAbs : Rat) ≤ 2 ^ 1023 := by
    have hcast := (Nat.cast_le (α := Rat)).mpr h
    rwa [Nat.cast_pow, Nat.cast_ofNat] at hcast
  exact hle.trans hpart

/-- A part that is no larger than the whole has a percentage, however large both are. -/
theorem exists_render_of_le {value of : Int} (hnonneg : 0 ≤ value) (hle : value ≤ of) :
    ∃ text, render value of = .ok text := by
  refine exists_render_of_quotient fun hpos => ?_
  have hwhole : (0 : Rat) < of.toNat := by exact_mod_cast (by omega : 0 < of.toNat)
  have hpart : (value.natAbs : Rat) ≤ of.toNat := by
    exact_mod_cast (by omega : value.natAbs ≤ of.toNat)
  have hone : mkRat value.natAbs of.toNat ≤ 1 := by
    rw [Rat.mkRat_eq_div, Int.cast_natCast]
    exact (div_le_one hwhole).mpr hpart
  exact hone.trans (one_le_pow₀ (by norm_num))

end Percentage

end BundleSize
