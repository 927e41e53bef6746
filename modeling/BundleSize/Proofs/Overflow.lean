import BundleSize.Proofs.Rounding

/-!
# Percentages out of range

In the last binade that double precision has, the values are the multiples of 2^971
below 2^1024, so a number from half a unit below 2^1024 on is rounded to 2^1024, which
has no value; the tie counts because the last of the values is odd. That is the only
way in which a number gets out of range (`Binary64.nearest_lt_iff`), and so there is a
percentage exactly of the parts that are less than 2^1024 - 2^970 wholes
(`Percentage.exists_render_iff`).
-/

namespace BundleSize

/-- An even number is reached from half a unit below it on. -/
theorem roundEven_lt_iff {x : Rat} {n : Int} (hn : n % 2 = 0) :
    roundEven x < n ↔ x < n - 1 / 2 := by
  constructor
  · intro hlt
    by_contra hge
    have hfloor : n - 1 ≤ x.floor := by
      rw [Rat.le_floor_iff]
      push_cast
      linarith
    have hround := floor_le_roundEven x
    have hlow : x.floor = n - 1 := by omega
    unfold roundEven at hlt
    simp only [hlow] at hlt
    push_cast at hlt
    rw [if_neg (by linarith)] at hlt
    split at hlt
    · omega
    · rw [if_neg (by omega)] at hlt
      omega
  · intro hlt
    have hround := (abs_le.mp (abs_roundEven_sub_le x)).2
    have hcast : (roundEven x : Rat) < n := by linarith
    exact_mod_cast hcast

namespace Binary64

/-- In the last binade a number is rounded to 2^1024 from half a unit below it on. -/
theorem nearest_lt_iff_of_last {x : Rat} (hlow : (2 : Rat) ^ (1023 : Int) ≤ x)
    (hhigh : x < (2 : Rat) ^ (1024 : Int)) :
    nearest x < 2 ^ (1024 : Int) ↔ x < (2 : Rat) ^ (1024 : Int) - 2 ^ (970 : Int) := by
  have hpos : (0 : Rat) < x := lt_of_lt_of_le (by positivity) hlow
  have hplace : lastPlace x = 971 := by
    rw [lastPlace, binade_eq hlow hhigh]
    rfl
  have hunit : (0 : Rat) < 2 ^ (971 : Int) := by positivity
  have htop : (2 : Rat) ^ (1024 : Int) = ((2 ^ 53 : Int) : Rat) * 2 ^ (971 : Int) := by
    rw [Int.cast_pow, Int.cast_ofNat, ← zpow_natCast, ← zpow_add₀ two_ne_zero]
    rfl
  have hhalf : (2 : Rat) ^ (970 : Int) = 1 / 2 * 2 ^ (971 : Int) := by
    rw [show (971 : Int) = 970 + 1 from rfl, zpow_add₀ two_ne_zero, zpow_one]
    ring
  rw [nearest_eq hpos.ne', hplace, htop, hhalf,
    mul_lt_mul_iff_left₀ hunit, ← sub_mul, ← div_lt_iff₀ hunit, Int.cast_lt]
  exact roundEven_lt_iff (by decide)

/-- A number has a value exactly if it is less than half a unit below 2^1024. -/
theorem nearest_lt_iff {x : Rat} (h : 0 ≤ x) :
    nearest x < 2 ^ (1024 : Int) ↔ x < (2 : Rat) ^ (1024 : Int) - 2 ^ (970 : Int) := by
  rcases lt_or_ge x (2 ^ (1024 : Int)) with hhigh | hbeyond
  · rcases lt_or_ge x (2 ^ (1023 : Int)) with hbelow | hlow
    · have hnearest := (nearest_mono h hbelow.le).trans_eq (nearest_zpow (by decide))
      have hdouble : (2 : Rat) ^ (1024 : Int) = 2 * 2 ^ (1023 : Int) := by
        rw [show (1024 : Int) = 1 + 1023 from rfl, zpow_add₀ two_ne_zero, zpow_one]
      have hhalf : (2 : Rat) ^ (970 : Int) ≤ 2 ^ (1023 : Int) :=
        zpow_le_zpow_right₀ one_le_two (by decide)
      have hpos : (0 : Rat) < 2 ^ (1023 : Int) := by positivity
      -- the powers are only compared here, their digits are of no use
      generalize (2 : Rat) ^ (1024 : Int) = top at *
      generalize (2 : Rat) ^ (1023 : Int) = last at *
      generalize (2 : Rat) ^ (970 : Int) = half at *
      refine iff_of_true ?_ ?_ <;> linarith
    · exact nearest_lt_iff_of_last hlow hhigh
  · have htop : (2 : Rat) ^ (1024 : Int) ≤ nearest x :=
      (nearest_zpow (by decide)).ge.trans (nearest_mono (by positivity) hbeyond)
    have hhalf : (0 : Rat) < 2 ^ (970 : Int) := by positivity
    exact iff_of_false (not_lt.mpr htop)
      (not_lt.mpr ((sub_le_self _ hhalf.le).trans hbeyond))

end Binary64

namespace Percentage

/-- The part is less than 2^1024 - 2^970 wholes, which is as far as double precision reaches. Of a
whole that is not positive every part is. -/
def InRange (value of : Int) : Prop := 0 < of → (value.natAbs : Int) < (2 ^ 1024 - 2 ^ 970) * of

instance (value of : Int) : Decidable (InRange value of) :=
  inferInstanceAs (Decidable (0 < of → (value.natAbs : Int) < (2 ^ 1024 - 2 ^ 970) * of))

theorem InRange.of_le {value value' of : Int} (h : InRange value of)
    (hle : value'.natAbs ≤ value.natAbs) : InRange value' of :=
  fun hpos => lt_of_le_of_lt (Int.ofNat_le.mpr hle) (h hpos)

theorem quotient_lt_iff {value of : Int} (h : 0 < of) :
    mkRat value.natAbs of.toNat < (2 : Rat) ^ (1024 : Int) - 2 ^ (970 : Int)
      ↔ (value.natAbs : Int) < (2 ^ 1024 - 2 ^ 970) * of := by
  have hwhole : ((of.toNat : Nat) : Rat) = of := by
    rw [← Int.cast_natCast, Int.toNat_of_nonneg h.le]
  have hpos : (0 : Rat) < of := by exact_mod_cast h
  have htop : (2 : Rat) ^ (1024 : Int) - 2 ^ (970 : Int) = ((2 ^ 1024 - 2 ^ 970 : Int) : Rat) := by
    rw [Int.cast_sub, Int.cast_pow, Int.cast_pow, Int.cast_ofNat]
    rfl
  rw [Rat.mkRat_eq_div, hwhole, div_lt_iff₀ hpos, htop, ← Int.cast_mul, Int.cast_lt]

/-- A part has a percentage exactly if it is in range. -/
theorem exists_render_iff {value of : Int} :
    (∃ text, render value of = .ok text) ↔ InRange value of := by
  unfold render InRange
  split
  · rename_i hof
    exact iff_of_true ⟨_, rfl⟩ fun hpos => absurd hof (not_le.mpr hpos)
  · rename_i hof
    have hpos : 0 < of := not_le.mp hof
    have hnonneg := (quotient_bounds value.natAbs of.toNat (by omega)).1
    simp only [hpos, true_imp_iff, ← quotient_lt_iff hpos, ← Binary64.nearest_lt_iff hnonneg,
      thousandths, Binary64.nearest?, Binary64.powerOfTwo_eq]
    by_cases hvalue : Binary64.nearest (mkRat value.natAbs of.toNat) < 2 ^ (1024 : Int)
    · rw [if_pos hvalue]
      exact iff_of_true ⟨_, rfl⟩ hvalue
    · rw [if_neg hvalue]
      refine iff_of_false ?_ hvalue
      rintro ⟨text, htext⟩
      cases htext

end Percentage

end BundleSize
