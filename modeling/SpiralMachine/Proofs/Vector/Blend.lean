import SpiralMachine.Proofs.Number.Precision
import SpiralMachine.Proofs.Vector.Phase

/-!
# A blend is finite

The two weights of a blend are rounded, and can add up to more than one, by `2 ^ (-54)` at most. At
the largest double that alone would be the overflow limit. But a weight above one half
takes the largest double to a whole unit below the product of the weight and the next power of two
(`abs_mul_le`), and the other product stays below its own, so that their sum is below the
limit (`abs_mul_add_lt`). Two weights up to one half add up to no more than the largest
double.
-/

set_option autoImplicit false

namespace SpiralMachine

open Number

namespace Number

variable {x y p q weight : Float} {number : ℚ}

/-- A positive double is a whole number of units, more than `2 ^ 52` and up to `2 ^ 53`. -/
theorem exists_mantissa (h : IsDouble number) (hpos : 0 < number) :
    ∃ (mantissa : ℕ) (exponent : ℤ), 2 ^ 52 < mantissa ∧ mantissa ≤ 2 ^ 53 ∧ -1127 ≤ exponent ∧
      number = mantissa * 2 ^ exponent := by
  obtain ⟨m, e, hpair, -, hsize⟩ := isDouble_iff.mp h
  rw [abs_of_pos hpos] at hsize
  obtain ⟨power, hlow, hhigh⟩ := exists_mem_Ioc_zpow hpos one_lt_two
  obtain ⟨exponent, rfl⟩ : ∃ exponent, power = 52 + exponent := ⟨power - 52, by ring⟩
  have hunit : (0 : ℚ) < 2 ^ exponent := by positivity
  have hleast : -1074 ≤ 52 + exponent + 1 :=
    (zpow_le_zpow_iff_right₀ one_lt_two).mp ((h.least_le hpos).trans hhigh)
  have hgrid : 52 + exponent < 53 + e := by
    refine lt_of_power_le hlow.le ?_
    rw [hsize, show (53 : ℤ) = (53 : ℕ) by rfl, two_zpow_add]
    exact mul_lt_mul_of_pos_right (by exact_mod_cast hpair.lt) (by positivity)
  obtain ⟨places, rfl⟩ : ∃ places : ℕ, e = places + exponent := ⟨(e - exponent).toNat, by omega⟩
  have hnumber : number = (m * 2 ^ places : ℕ) * 2 ^ exponent := by
    rw [hsize, two_zpow_add]
    push_cast
    ring
  refine ⟨m * 2 ^ places, exponent, ?_, ?_, by omega, hnumber⟩
  · rw [hnumber, show (52 : ℤ) = (52 : ℕ) by rfl, two_zpow_add] at hlow
    exact_mod_cast lt_of_mul_lt_mul_right hlow hunit.le
  · rw [hnumber, show (52 : ℤ) + exponent + 1 = (53 : ℕ) + exponent by push_cast; ring,
      two_zpow_add] at hhigh
    exact_mod_cast le_of_mul_le_mul_right hhigh hunit

/-- A finite double times a weight stays below the product of the weight and the power of two above
all doubles, and, if the weight is more than one half, at least one unit of the largest
double below it. -/
theorem abs_mul_le (hx : x.isFinite) (hweight : Within 0 1 weight) (hpos : 0 < value weight) :
    |value (x * weight)| < 2 ^ 53 * topUnit * value weight ∧
      (1 / 2 < value weight →
        |value (x * weight)| ≤ 2 ^ 53 * topUnit * value weight - topUnit) := by
  obtain ⟨mantissa, exponent, hmore, hmost, hleast, hvalue⟩ :=
    exists_mantissa (isDouble_value hweight.finite) hpos
  obtain ⟨before, rfl⟩ : ∃ before, mantissa = before + 1 := ⟨mantissa - 1, by omega⟩
  have hfull : (2 : ℚ) ^ 52 < before + 1 := by exact_mod_cast hmore
  have hsmall : 52 + exponent < 0 := by
    refine (zpow_lt_zpow_iff_right₀ (one_lt_two (α := ℚ))).mp ?_
    rw [zpow_add₀ two_ne_zero, zpow_zero]
    refine lt_of_lt_of_le ?_ (hvalue.symm.trans_le hweight.le_high)
    exact mul_lt_mul_of_pos_right (by exact_mod_cast hmore) (by positivity)
  have hpair : Canonical before (1024 + exponent) := ⟨by omega, by omega, .inl (by omega)⟩
  have hunit : (2 : ℚ) ^ (1024 + exponent) = 2 ^ 53 * topUnit * 2 ^ exponent := by
    rw [zpow_add₀ two_ne_zero, power_above_doubles]
  have hbound : |value x * value weight| < (before + 1 / 2) * 2 ^ (1024 + exponent) := by
    have hlargest := mul_le_mul_of_nonneg_right (isDouble_value hx).abs_le hpos.le
    have hscale : 0 < topUnit * 2 ^ exponent := mul_pos topUnit_pos (by positivity)
    rw [abs_mul, abs_of_pos hpos]
    refine hlargest.trans_lt ?_
    calc (2 ^ 53 - 1) * topUnit * value weight
        = (2 ^ 53 - 1) * (before + 1) * (topUnit * 2 ^ exponent) := by
          rw [hvalue, Nat.cast_succ]
          ring
      _ < 2 ^ 53 * (before + 1 / 2) * (topUnit * 2 ^ exponent) :=
          mul_lt_mul_of_pos_right (by linarith) hscale
      _ = (before + 1 / 2) * 2 ^ (1024 + exponent) := by
          rw [hunit]
          ring
  have hnearest := hweight.nearest_mul hx
  have hproduct : |value (x * weight)| ≤ before * 2 ^ (1024 + exponent) := by
    obtain ⟨hlow, hhigh⟩ := abs_lt.mp hbound
    have hbelow := hnearest.neg.value_le_of_lt_half hpair (by omega) (neg_lt.mp hlow)
    rw [(neg_spec hnearest.finite).2] at hbelow
    exact abs_le.mpr ⟨neg_le.mp hbelow, hnearest.value_le_of_lt_half hpair (by omega) hhigh⟩
  have hnext : 2 ^ 53 * topUnit * value weight =
      before * 2 ^ (1024 + exponent) + 2 ^ (1024 + exponent) := by
    rw [hunit, hvalue, Nat.cast_succ]
    ring
  rw [hnext]
  refine ⟨hproduct.trans_lt (lt_add_of_pos_right _ (by positivity)), fun hhalf ↦ ?_⟩
  -- a weight above one half has the unit `2 ^ (-53)`
  have hlarge : -1 < 53 + exponent := by
    refine (zpow_lt_zpow_iff_right₀ (one_lt_two (α := ℚ))).mp ?_
    rw [zpow_add₀ two_ne_zero]
    refine lt_of_lt_of_le (by norm_num at hhalf ⊢; exact hhalf) (hvalue.trans_le ?_)
    exact mul_le_mul_of_nonneg_right (by exact_mod_cast hmost) (by positivity)
  obtain rfl : exponent = -53 := by omega
  rw [show (1024 : ℤ) + -53 = 971 by rfl, ← topUnit] at hproduct ⊢
  rwa [add_sub_cancel_right]

/-- A finite double times a weight up to one half is no more than half of the largest double. -/
theorem abs_mul_le_half (hx : x.isFinite) (hweight : weight.isFinite) (hnonneg : 0 ≤ value weight)
    (hhalf : value weight ≤ 1 / 2) :
    |value (x * weight)| ≤ (2 ^ 53 - 1) * (topUnit / 2) := by
  have hdouble : IsDouble ((2 ^ 53 - 1) * (topUnit / 2)) := by
    have hgrid : IsDouble ((2 ^ 53 - 1 : ℤ) * 2 ^ (970 : ℤ)) :=
      isDouble_grid (by norm_num) (by norm_num) le_rfl
    rw [Int.cast_sub, Int.cast_pow, Int.cast_ofNat, Int.cast_one] at hgrid
    rwa [topUnit, show (971 : ℤ) = 970 + 1 by rfl, zpow_add_one₀ two_ne_zero,
      mul_div_cancel_right₀ _ two_ne_zero]
  have hproduct : |value x * value weight| ≤ (2 ^ 53 - 1) * (topUnit / 2) := by
    have hlargest := mul_le_mul (isDouble_value hx).abs_le hhalf hnonneg
      (mul_nonneg (by norm_num) topUnit_pos.le)
    rw [abs_mul, abs_of_nonneg hnonneg]
    linarith
  obtain ⟨hlow, hhigh⟩ := abs_le.mp hproduct
  have hwithin := (rounds_mul hx hweight).within hdouble.neg hdouble hlow hhigh
  exact abs_le.mpr ⟨hwithin.low_le, hwithin.le_high⟩

theorem abs_mul_add_lt_of_half_lt (hx : x.isFinite) (hy : y.isFinite) (hp : Within 0 1 p)
    (hq : Within 0 1 q) (hsum : value p + value q ≤ 1 + 1 / 2 ^ 54) (hhalf : 1 / 2 < value p) :
    |value (x * p)| + |value (y * q)| < overflowLimit := by
  have hunit := topUnit_pos
  have hfirst := (abs_mul_le hx hp (by linarith)).2 hhalf
  unfold overflowLimit
  rcases hq.low_le.eq_or_lt with hzero | hpos
  · have hproduct := (rounds_mul hy hq.finite).exact
      (by rw [← hzero, mul_zero]; exact isDouble_zero)
    rw [hproduct.2, ← hzero, mul_zero, abs_zero, add_zero]
    have hone := mul_le_mul_of_nonneg_left hp.le_high hunit.le
    linarith
  · have hsecond := (abs_mul_le hy hq hpos).1
    have hscaled := mul_le_mul_of_nonneg_left hsum hunit.le
    linarith

/-- Two finite doubles times weights that add up to hardly more than one add up to less than the
overflow limit. -/
theorem abs_mul_add_lt (hx : x.isFinite) (hy : y.isFinite) (hp : Within 0 1 p) (hq : Within 0 1 q)
    (hsum : value p + value q ≤ 1 + 1 / 2 ^ 54) :
    |value (x * p)| + |value (y * q)| < overflowLimit := by
  rcases lt_or_ge (1 / 2) (value p) with hhalf | hp'
  · exact abs_mul_add_lt_of_half_lt hx hy hp hq hsum hhalf
  rcases lt_or_ge (1 / 2) (value q) with hhalf | hq'
  · rw [add_comm]
    exact abs_mul_add_lt_of_half_lt hy hx hq hp (by linarith) hhalf
  have hunit := topUnit_pos
  have hfirst := abs_mul_le_half hx hp.finite hp.low_le hp'
  have hsecond := abs_mul_le_half hy hq.finite hq.low_le hq'
  unfold overflowLimit
  linarith

/-- A mean of two finite doubles is finite. -/
theorem isFinite_mean (hx : x.isFinite) (hy : y.isFinite) (hweight : Within 0 1 weight) :
    (x * (1.0 - weight) + y * weight).isFinite := by
  obtain ⟨hone, hvalue⟩ := value_one
  have hround := rounds_sub hone hweight.finite
  rw [hvalue] at hround
  have hother : Within 0 1 (1.0 - weight) :=
    hround.within isDouble_zero isDouble_one (sub_nonneg.mpr hweight.le_high)
      (sub_le_self _ hweight.low_le)
  have hsum : value (1.0 - weight) + value weight ≤ 1 + 1 / 2 ^ 54 := by
    have hsize : |1 - value weight| ≤ 2 ^ 53 * 2 ^ (-53 : ℤ) := by
      rw [abs_of_nonneg (sub_nonneg.mpr hweight.le_high)]
      norm_num
      exact hweight.low_le
    obtain ⟨-, herror⟩ := hround.abs_sub_le hsize (by norm_num) (by norm_num)
    have herror := (le_abs_self _).trans herror
    norm_num at herror ⊢
    linarith
  refine (rounds_add (hother.nearest_mul hx).finite
    (hweight.nearest_mul hy).finite).isFinite_of_lt ?_
  exact (abs_add_le _ _).trans_lt (abs_mul_add_lt hx hy hother hweight hsum)

end Number

namespace SpiralVector

/-- No component of a blend overflows. -/
theorem isFinite_blend {v target : SpiralVector} {t : Float} (hv : v.isFinite)
    (htarget : target.isFinite) (hlow : 0.0 ≤ t) (hhigh : t ≤ 1.0) :
    (v.blend target t).isFinite := by
  obtain ⟨hzero, hzeroValue⟩ := value_zero
  obtain ⟨hone, honeValue⟩ := value_one
  have ht := isFinite_of_between hzero hone hlow hhigh
  rw [le_iff hzero ht, hzeroValue] at hlow
  rw [le_iff ht hone, honeValue] at hhigh
  rw [isFinite_iff, forall_mem_toList] at hv htarget ⊢
  obtain ⟨hpace, hrate, hstate, hspin⟩ := hv
  obtain ⟨hpace', hrate', hstate', hspin'⟩ := htarget
  have hweight : Within 0 1 t := ⟨ht, hlow, hhigh⟩
  exact ⟨isFinite_mean hpace hpace' hweight, isFinite_mean hrate hrate' hweight,
    isFinite_mean hstate hstate' hweight, isFinite_mean hspin hspin' hweight⟩

end SpiralVector

end SpiralMachine
