import BundleSize.Numeric.Binary64
import Mathlib

/-!
# Nearest values

Rounding to the nearest integer moves a number by at most a half
(`abs_roundEven_sub_le`) and keeps the order of numbers (`roundEven_mono`). The
nearest value of double precision is the nearest number of units in the last
place, and the unit depends on the number: it is 2^-52 of the power of two at which
the number's binade begins, which the estimate finds exactly
(`Binary64.binade_bounds`), or 2^-1074 where that is more.

A unit is therefore small beside the number unless the number itself is small
(`Binary64.powerOfTwo_lastPlace_le`), which bounds the error
(`Binary64.abs_nearest_sub_le`). And the order is kept although units differ
(`Binary64.nearest_mono`): two numbers of different units are parted by a power of
two, which is a number of units of either and so goes on parting them.
-/

namespace BundleSize

/-! ## The nearest integer -/

theorem abs_roundEven_sub_le (x : Rat) : |(roundEven x : Rat) - x| ≤ 1 / 2 := by
  have hfloor : ((x.floor : Int) : Rat) ≤ x := Rat.floor_le x
  have hnext : x < (x.floor : Int) + 1 := by exact_mod_cast Rat.lt_floor_add_one x
  rw [abs_le]
  unfold roundEven
  simp only
  split_ifs with hlow hhigh heven
  · constructor <;> linarith
  · push_cast
    constructor <;> linarith
  · constructor <;> linarith
  · push_cast
    constructor <;> linarith

theorem floor_le_roundEven (x : Rat) : x.floor ≤ roundEven x := by
  unfold roundEven
  simp only
  split_ifs <;> omega

theorem roundEven_le_floor (x : Rat) : roundEven x ≤ x.floor + 1 := by
  unfold roundEven
  simp only
  split_ifs <;> omega

theorem roundEven_intCast (n : Int) : roundEven n = n := by
  unfold roundEven
  simp only [Rat.floor_intCast, sub_self]
  exact if_pos (by norm_num)

theorem roundEven_mono {x y : Rat} (h : x ≤ y) : roundEven x ≤ roundEven y := by
  rcases (Rat.floor_monotone h).eq_or_lt with hsame | hless
  · -- of two numbers between the same integers the greater one is nearer to the upper
    have hfraction : x - (y.floor : Int) ≤ y - (y.floor : Int) := by linarith
    unfold roundEven
    simp only [hsame]
    grind
  · exact (roundEven_le_floor x).trans (Int.le_trans hless (floor_le_roundEven y))

namespace Binary64

variable {x y : Rat}

/-! ## Binades and units -/

theorem powerOfTwo_eq (e : Int) : powerOfTwo e = (2 : Rat) ^ e := by
  unfold powerOfTwo
  split
  · rename_i hnonneg
    obtain ⟨n, rfl⟩ := Int.eq_ofNat_of_zero_le hnonneg
    simp [Rat.mkRat_eq_div]
  · obtain ⟨n, rfl⟩ : ∃ n : Nat, e = -(n : Int) := ⟨(-e).toNat, by omega⟩
    simp [Rat.mkRat_eq_div]

/-- A positive number lies in the binade that is estimated for it. -/
theorem binade_bounds (h : 0 < x) :
    (2 : Rat) ^ binade x ≤ x ∧ x < 2 ^ (binade x + 1) := by
  have hnum := Rat.num_pos.mpr h
  have hx : x = x.num.natAbs / x.den := by
    have hcast : ((x.num.natAbs : Int) : Rat) = x.num := by
      rw [Int.natAbs_of_nonneg hnum.le]
    rw [← Int.cast_natCast x.num.natAbs, hcast, Rat.num_div_den]
  have hnumLow : (2 : Rat) ^ (Nat.log2 x.num.natAbs : Int) ≤ x.num.natAbs := by
    exact_mod_cast Nat.log2_self_le (n := x.num.natAbs) (by omega)
  have hnumHigh : (x.num.natAbs : Rat) < 2 ^ ((Nat.log2 x.num.natAbs : Int) + 1) := by
    exact_mod_cast Nat.lt_log2_self (n := x.num.natAbs)
  have hdenLow : (2 : Rat) ^ (Nat.log2 x.den : Int) ≤ x.den := by
    exact_mod_cast Nat.log2_self_le x.den_nz
  have hdenHigh : (x.den : Rat) < 2 ^ ((Nat.log2 x.den : Int) + 1) := by
    exact_mod_cast Nat.lt_log2_self (n := x.den)
  have hlow : (2 : Rat) ^ ((Nat.log2 x.num.natAbs : Int) - (Nat.log2 x.den + 1)) ≤ x := by
    rw [zpow_sub₀ two_ne_zero]
    exact (div_le_div₀ (by positivity) hnumLow (by positivity) hdenHigh.le).trans_eq hx.symm
  have hhigh : x < (2 : Rat) ^ ((Nat.log2 x.num.natAbs : Int) + 1 - Nat.log2 x.den) := by
    rw [zpow_sub₀ two_ne_zero]
    exact hx.trans_lt (div_lt_div₀ hnumHigh hdenLow (by positivity) (by positivity))
  unfold binade
  simp only [powerOfTwo_eq]
  split
  · rename_i hle
    exact ⟨hle, hhigh.trans_eq (by congr 1; omega)⟩
  · rename_i hlt
    refine ⟨(hlow.trans_eq' (by congr 1; omega)), ?_⟩
    rw [sub_add_cancel]
    exact not_le.mp hlt

theorem binade_eq {e : Int} (hlow : 2 ^ e ≤ x) (hhigh : x < 2 ^ (e + 1)) :
    binade x = e := by
  have hpos : (0 : Rat) < x := lt_of_lt_of_le (by positivity) hlow
  obtain ⟨hle, hlt⟩ := binade_bounds hpos
  have hdown := (zpow_lt_zpow_iff_right₀ (one_lt_two (α := Rat))).mp (hle.trans_lt hhigh)
  have hup := (zpow_lt_zpow_iff_right₀ (one_lt_two (α := Rat))).mp (hlow.trans_lt hlt)
  omega

theorem binade_mono (hpos : 0 < x) (h : x ≤ y) : binade x ≤ binade y := by
  have hlow := (binade_bounds hpos).1
  have hhigh := (binade_bounds (hpos.trans_le h)).2
  have hlt := (zpow_lt_zpow_iff_right₀ (one_lt_two (α := Rat))).mp
    ((hlow.trans h).trans_lt hhigh)
  omega

theorem lastPlace_mono (hpos : 0 < x) (h : x ≤ y) : lastPlace x ≤ lastPlace y := by
  have hbinade := binade_mono hpos h
  unfold lastPlace
  omega

/-- The unit in the last place is at most 2^-52 of the number, or 2^-1074. -/
theorem powerOfTwo_lastPlace_le (h : 0 < x) :
    powerOfTwo (lastPlace x) ≤ (x + 1) / 2 ^ 52 := by
  rw [powerOfTwo_eq, lastPlace]
  rcases max_choice (binade x - 52) (-1074) with hmax | hmax
  · rw [hmax, zpow_sub₀ two_ne_zero]
    have hbinade := (binade_bounds h).1
    exact div_le_div_of_nonneg_right (by linarith) (by positivity)
  · have hsmall : (2 : Rat) ^ (-1074 : Int) ≤ 2 ^ (-52 : Int) :=
      zpow_le_zpow_right₀ one_le_two (by decide)
    rw [hmax]
    refine hsmall.trans ?_
    rw [zpow_neg, ← one_div]
    exact div_le_div_of_nonneg_right (by linarith) (by positivity)

/-- A power of two that is no less than a unit consists of units. -/
theorem exists_units {e : Int} (h : lastPlace x ≤ e) :
    ∃ n : Int, (2 : Rat) ^ e = n * 2 ^ lastPlace x := by
  refine ⟨2 ^ (e - lastPlace x).toNat, ?_⟩
  rw [Int.cast_pow, Int.cast_ofNat, ← zpow_natCast, ← zpow_add₀ two_ne_zero]
  congr 1
  omega

/-! ## The nearest value -/

theorem nearest_zero : nearest 0 = 0 := rfl

theorem nearest_eq (h : x ≠ 0) :
    nearest x = roundEven (x / 2 ^ lastPlace x) * 2 ^ lastPlace x := by
  rw [nearest, if_neg h, powerOfTwo_eq]

/-- Rounding moves a number by at most 2^-53 of it, or of one where the number is less. -/
theorem abs_nearest_sub_le (h : 0 ≤ x) : |nearest x - x| ≤ (x + 1) / 2 ^ 53 := by
  rcases h.eq_or_lt with rfl | hpos
  · simp [nearest]
  have hunit := powerOfTwo_lastPlace_le hpos
  rw [powerOfTwo_eq] at hunit
  rw [nearest_eq hpos.ne']
  have hunitPos : (0 : Rat) < 2 ^ lastPlace x := by positivity
  generalize (2 : Rat) ^ lastPlace x = unit at hunit hunitPos ⊢
  calc |(roundEven (x / unit) : Rat) * unit - x|
      = |(roundEven (x / unit) : Rat) - x / unit| * unit := by
        rw [← abs_of_pos hunitPos, ← abs_mul, abs_of_pos hunitPos, sub_mul,
          div_mul_cancel₀ _ hunitPos.ne']
    _ ≤ 1 / 2 * unit := mul_le_mul_of_nonneg_right (abs_roundEven_sub_le _) hunitPos.le
    _ ≤ 1 / 2 * ((x + 1) / 2 ^ 52) := mul_le_mul_of_nonneg_left hunit (by norm_num)
    _ = (x + 1) / 2 ^ 53 := by ring

theorem nearest_le_of_le {n : Int} (hpos : 0 < x) (h : x ≤ n * 2 ^ lastPlace x) :
    nearest x ≤ n * 2 ^ lastPlace x := by
  have hunit : (0 : Rat) < 2 ^ lastPlace x := by positivity
  have hround := roundEven_mono ((div_le_iff₀ hunit).mpr h)
  rw [roundEven_intCast] at hround
  rw [nearest_eq hpos.ne']
  exact mul_le_mul_of_nonneg_right (by exact_mod_cast hround) hunit.le

theorem le_nearest_of_le {n : Int} (hpos : 0 < x) (h : n * 2 ^ lastPlace x ≤ x) :
    n * 2 ^ lastPlace x ≤ nearest x := by
  have hunit : (0 : Rat) < 2 ^ lastPlace x := by positivity
  have hround := roundEven_mono ((le_div_iff₀ hunit).mpr h)
  rw [roundEven_intCast] at hround
  rw [nearest_eq hpos.ne']
  exact mul_le_mul_of_nonneg_right (by exact_mod_cast hround) hunit.le

theorem nearest_nonneg (h : 0 ≤ x) : 0 ≤ nearest x := by
  rcases h.eq_or_lt with rfl | hpos
  · exact nearest_zero.ge
  · simpa using le_nearest_of_le (n := 0) hpos (by simpa using h)

theorem nearest_mono (hx : 0 ≤ x) (h : x ≤ y) : nearest x ≤ nearest y := by
  rcases hx.eq_or_lt with rfl | hpos
  · exact nearest_zero.le.trans (nearest_nonneg h)
  have hpos' : 0 < y := hpos.trans_le h
  rcases (lastPlace_mono hpos h).eq_or_lt with hsame | hless
  · rw [nearest_eq hpos.ne', nearest_eq hpos'.ne', hsame]
    have hunit : (0 : Rat) < 2 ^ lastPlace y := by positivity
    have hround := roundEven_mono (div_le_div_of_nonneg_right h hunit.le)
    exact mul_le_mul_of_nonneg_right (by exact_mod_cast hround) hunit.le
  · -- the binade of the greater number begins at a power of two that parts the two
    have hbinades : binade x < binade y ∧ lastPlace y ≤ binade y := by
      unfold lastPlace at hless ⊢
      omega
    have hbelow : x ≤ 2 ^ binade y :=
      (binade_bounds hpos).2.le.trans (zpow_le_zpow_right₀ one_le_two hbinades.1)
    have habove : (2 : Rat) ^ binade y ≤ y := (binade_bounds hpos').1
    obtain ⟨m, hm⟩ := exists_units (hless.le.trans hbinades.2)
    obtain ⟨n, hn⟩ := exists_units hbinades.2
    calc nearest x
        ≤ 2 ^ binade y := hm ▸ nearest_le_of_le hpos (hm ▸ hbelow)
      _ ≤ nearest y := hn ▸ le_nearest_of_le hpos' (hn ▸ habove)

/-- A power of two is its own nearest value, unless it is less than every unit. -/
theorem nearest_zpow {e : Int} (h : -1074 ≤ e) : nearest (2 ^ e) = 2 ^ e := by
  have hpos : (0 : Rat) < 2 ^ e := by positivity
  have hbinade : binade (2 ^ e) = e :=
    binade_eq le_rfl (zpow_lt_zpow_right₀ one_lt_two (by omega))
  have hplace : lastPlace (2 ^ e) ≤ e := by
    rw [lastPlace, hbinade]
    omega
  obtain ⟨n, hn⟩ := exists_units hplace
  exact le_antisymm ((nearest_le_of_le hpos hn.le).trans hn.ge)
    (hn.le.trans (le_nearest_of_le hpos hn.ge))

end Binary64

end BundleSize
