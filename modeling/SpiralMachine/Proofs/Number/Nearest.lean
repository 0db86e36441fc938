import Mathlib.Algebra.Order.Field.Basic
import SpiralMachine.Proofs.Number.Scientific
import SpiralMachine.Proofs.Number.Value

/-!
# Arithmetic gives the nearest double

The result of an arithmetic operation is the double nearest to the exact result, with an even
mantissa if another is as near, or it is infinite and the exact result is at least half a unit
beyond all doubles (`Rounds`, `overflowLimit`). So a result is on no other side of a double than the
exact result is (`Nearest.value_le`, `Nearest.le_value`), which is all that range arguments need.

That no double is nearer is a fact about grids. The doubles from some power of two on lie on
the grid of the exponent that rounding aims at, where the whole number nearest to the mantissa is
taken (`NearestEven.abs_sub_le`); the smaller doubles are below that power of two,
which is on the grid itself (`Canonical.onGrid_or_farther`, `exists_nearest_pair`). The grid also
tells how far a number is rounded: half a unit at most (`Rounds.abs_sub_le`), and not at all if it
is a double (`Rounds.exact`).
-/

set_option autoImplicit false

namespace SpiralMachine.Number

open Float.Model Float.Model.UnpackedFloat

/-! ### Nearest doubles -/

/-- The size of the number is a canonical pair with an even mantissa. -/
def HasEvenMantissa (number : ℚ) : Prop :=
  ∃ mantissa exponent, Canonical mantissa exponent ∧ |number| = mantissa * 2 ^ exponent ∧
    mantissa % 2 = 0

theorem HasEvenMantissa.even {number : ℚ} (h : HasEvenMantissa number) {mantissa : ℕ}
    {exponent : ℤ} (hpair : Canonical mantissa exponent)
    (hsize : |number| = mantissa * 2 ^ exponent) : mantissa % 2 = 0 := by
  obtain ⟨m, e, hcanonical, hother, heven⟩ := h
  obtain ⟨rfl, -⟩ := hpair.unique hcanonical (hsize.symm.trans hother)
  exact heven

theorem HasEvenMantissa.neg {number : ℚ} (h : HasEvenMantissa number) :
    HasEvenMantissa (-number) := by
  unfold HasEvenMantissa
  rwa [abs_neg]

/-- A finite double than which no double is nearer to a number. If another is as near, the mantissa
is even. -/
structure Nearest (number : ℚ) (x : Float) : Prop where
  finite : x.isFinite
  le : ∀ {other : ℚ}, IsDouble other → |value x - number| ≤ |other - number|
  even : ∀ {other : ℚ}, IsDouble other → other ≠ value x →
    |other - number| = |value x - number| → HasEvenMantissa (value x)

/-- The unit of the largest doubles. -/
def topUnit : ℚ := 2 ^ (971 : ℤ)

theorem topUnit_pos : 0 < topUnit := zpow_pos two_pos 971

/-- The number half way from the largest double to `2 ^ 1024`. -/
def overflowLimit : ℚ := (2 ^ 53 - 1 / 2) * topUnit

theorem overflowLimit_pos : 0 < overflowLimit := mul_pos (by norm_num) topUnit_pos

/-- The largest double is half a unit below the overflow limit. -/
theorem IsDouble.abs_le {number : ℚ} (h : IsDouble number) :
    |number| ≤ (2 ^ 53 - 1) * topUnit := by
  obtain ⟨mantissa, exponent, hpair, hmax, hsize⟩ := isDouble_iff.mp h
  have hmantissa : (mantissa : ℚ) ≤ 2 ^ 53 - 1 := by
    have : (mantissa : ℚ) + 1 ≤ 2 ^ 53 := by exact_mod_cast hpair.lt
    linarith
  rw [hsize]
  exact mul_le_mul hmantissa (zpow_le_zpow_right₀ one_le_two hmax) (by positivity) (by norm_num)

theorem IsDouble.abs_lt {number : ℚ} (h : IsDouble number) : |number| < overflowLimit :=
  h.abs_le.trans_lt (mul_lt_mul_of_pos_right (by norm_num) topUnit_pos)

/-- What a number is rounded to: the nearest double, or an infinite one of its sign from the
overflow limit on. -/
inductive Rounds (number : ℚ) (x : Float) : Prop where
  | nearest : Nearest number x → |number| ≤ overflowLimit → Rounds number x
  | overflow : x.toModel.unpack = .infinity (signOf number) → overflowLimit ≤ |number| →
      Rounds number x

section Nearest

variable {number bound : ℚ} {x : Float}

/-- A double is nearest to its own value. -/
theorem nearest_value (h : x.isFinite) : Nearest (value x) x := by
  refine ⟨h, fun _ ↦ by simp, fun {other} _ hne htie ↦ ?_⟩
  rw [sub_self, abs_zero, abs_eq_zero, sub_eq_zero] at htie
  exact absurd htie hne

theorem Nearest.neg (h : Nearest number x) : Nearest (-number) (-x) := by
  obtain ⟨hfinite, hvalue⟩ := neg_spec h.finite
  have hmirror (other : ℚ) : |-other - number| = |other - -number| := by
    rw [← abs_neg, neg_sub, sub_neg_eq_add, sub_neg_eq_add, add_comm]
  have hself : |value (-x) - -number| = |value x - number| := by
    rw [← hmirror, hvalue, neg_neg]
  refine ⟨hfinite, fun {other} hother ↦ ?_, fun {other} hother hne htie ↦ ?_⟩
  · rw [hself, ← hmirror]
    exact h.le hother.neg
  · rw [hself, ← hmirror] at htie
    rw [hvalue] at hne ⊢
    exact (h.even hother.neg (neg_eq_iff_eq_neg.not.mpr hne) htie).neg

theorem rounds_value (h : x.isFinite) : Rounds (value x) x :=
  .nearest (nearest_value h) (isDouble_value h).abs_lt.le

theorem rounds_zero (sign : Sign) : Rounds 0 (.ofModel (.pack (.zero sign))) := by
  have hunpack : (Float.ofModel (.pack (.zero sign))).toModel.unpack = .zero sign :=
    unpack_pack_zero sign
  rw [← value_of_unpack_zero hunpack]
  exact rounds_value (isFinite_iff.mpr (.inl ⟨sign, hunpack⟩))

theorem Nearest.value_le (h : Nearest number x) (hdouble : IsDouble bound) (hle : number ≤ bound) :
    value x ≤ bound := by
  have hnear := h.le hdouble
  rw [abs_of_nonneg (sub_nonneg.mpr hle)] at hnear
  linarith [le_abs_self (value x - number)]

theorem Nearest.le_value (h : Nearest number x) (hdouble : IsDouble bound) (hle : bound ≤ number) :
    bound ≤ value x := by
  have hnear := h.le hdouble
  rw [abs_of_nonpos (sub_nonpos.mpr hle)] at hnear
  linarith [neg_abs_le (value x - number)]

/-- A number no greater than some double is rounded to the nearest double. -/
theorem Rounds.nearest_of_le (h : Rounds number x) (hdouble : IsDouble bound)
    (hle : |number| ≤ |bound|) : Nearest number x := by
  cases h with
  | nearest h _ => exact h
  | overflow _ hlarge => exact absurd (hlarge.trans hle) hdouble.abs_lt.not_ge

end Nearest

/-! ### Grids -/

/-- No whole number is nearer than the one that a number is rounded to. -/
theorem NearestEven.abs_sub_le {whole : ℕ} {x : ℚ} (h : NearestEven whole x) (other : ℕ) :
    |(whole : ℚ) - x| ≤ |(other : ℚ) - x| := by
  have hhalf : |(whole : ℚ) - x| ≤ 1 / 2 := abs_le.mpr ⟨by linarith [h.above], h.below⟩
  rcases lt_trichotomy other whole with hlt | rfl | hgt
  · have hgap : (other : ℚ) + 1 ≤ whole := by exact_mod_cast hlt
    linarith [neg_abs_le ((other : ℚ) - x), h.below]
  · exact le_rfl
  · have hgap : (whole : ℚ) + 1 ≤ other := by exact_mod_cast hgt
    linarith [le_abs_self ((other : ℚ) - x), h.above]

/-- Another whole number is as near only if the one that a number is rounded to is even. -/
theorem NearestEven.even_of_tie {whole other : ℕ} {x : ℚ} (h : NearestEven whole x)
    (hne : other ≠ whole) (htie : |(other : ℚ) - x| = |(whole : ℚ) - x|) : whole % 2 = 0 := by
  rcases Nat.mod_two_eq_zero_or_one whole with heven | hodd
  · exact heven
  · obtain ⟨habove, hbelow⟩ := h.strict hodd
    have hhalf : |(whole : ℚ) - x| < 1 / 2 := abs_lt.mpr ⟨by linarith, hbelow⟩
    rw [← htie, abs_lt] at hhalf
    rcases hne.lt_or_gt with hlt | hgt
    · have hgap : (other : ℚ) + 1 ≤ whole := by exact_mod_cast hlt
      linarith [hhalf.1]
    · have hgap : (whole : ℚ) + 1 ≤ other := by exact_mod_cast hgt
      linarith [hhalf.2]

/-- A distance in units. -/
theorem abs_mul_unit_sub (number size : ℚ) {unit : ℚ} (hunit : 0 < unit) :
    |number * unit - size| = |number - size / unit| * unit := by
  rw [← abs_of_pos hunit, ← abs_mul, abs_of_pos hunit, sub_mul, div_mul_cancel₀ _ hunit.ne']

/-- A canonical pair than which none is nearer to a size. If another is as near, the mantissa is
even. -/
structure NearestPair (size : ℚ) (mantissa : ℕ) (exponent : ℤ) : Prop where
  canonical : Canonical mantissa exponent
  le : ∀ {m e}, Canonical m e →
    |(mantissa : ℚ) * 2 ^ exponent - size| ≤ |(m : ℚ) * 2 ^ e - size|
  even : ∀ {m e}, Canonical m e → (m : ℚ) * 2 ^ e ≠ mantissa * 2 ^ exponent →
    |(m : ℚ) * 2 ^ e - size| = |(mantissa : ℚ) * 2 ^ exponent - size| → mantissa % 2 = 0

section Grid

variable {start whole : ℕ} {scale target : ℤ} {size : ℚ}

/-- Between which bounds a number lies on the grid that rounding aims at. -/
theorem target_bounds (hlow : (start : ℚ) ≤ size / 2 ^ scale)
    (hhigh : size / 2 ^ scale < start + 1) (hbits : 52 ≤ start.log2 ∨ scale ≤ -1074)
    (htarget : Format.binary64.targetExponent (totalExponent start scale) = target) :
    -1074 ≤ target ∧ size < 2 ^ 53 * 2 ^ target ∧
      (target = -1074 ∨ 2 ^ 52 * 2 ^ target ≤ size) := by
  rw [targetExponent_eq] at htarget
  rw [← two_zpow_add, ← two_zpow_add]
  push_cast
  rcases Nat.eq_zero_or_pos start with rfl | hpos
  · have hscale : scale ≤ -1074 := hbits.resolve_left (by simp)
    have hsize : size < 2 ^ scale := by
      have := (div_lt_iff₀ (by positivity : (0 : ℚ) < 2 ^ scale)).mp hhigh
      simpa using this
    rw [Nat.log2_zero, Nat.cast_zero] at htarget
    refine ⟨by omega, hsize.trans_le ?_, .inl (by omega)⟩
    exact zpow_le_zpow_right₀ one_le_two (by omega)
  · obtain ⟨hfloor, hceil⟩ := log2_bounds hpos.ne' hlow hhigh
    refine ⟨by omega, hceil.trans_le ?_, ?_⟩
    · exact zpow_le_zpow_right₀ one_le_two (by omega)
    · by_cases hsmallest : target = -1074
      · exact .inl hsmallest
      · refine .inr (le_trans (le_of_eq ?_) hfloor)
        congr 1
        omega

/-- A canonical pair is on the grid, or it is farther from a number than the power of two that the
grid begins with. -/
theorem Canonical.onGrid_or_farther {mantissa : ℕ} {exponent : ℤ}
    (h : Canonical mantissa exponent) (hfull : target = -1074 ∨ 2 ^ 52 * 2 ^ target ≤ size) :
    (∃ count : ℕ, (mantissa : ℚ) * 2 ^ exponent = count * 2 ^ target) ∨
      |((2 ^ 52 : ℕ) : ℚ) * 2 ^ target - size| < |(mantissa : ℚ) * 2 ^ exponent - size| := by
  rcases le_or_gt target exponent with hle | hlt
  · obtain ⟨places, rfl⟩ : ∃ places : ℕ, exponent = places + target :=
      ⟨(exponent - target).toNat, by omega⟩
    refine .inl ⟨mantissa * 2 ^ places, ?_⟩
    rw [two_zpow_add, ← mul_assoc]
    push_cast
    rfl
  · have hsmall := h.lt_power hlt
    have hlarge := hfull.resolve_left fun heq ↦ by
      have := h.le_exponent
      omega
    refine .inr ?_
    push_cast
    rw [abs_of_nonpos (by linarith), abs_of_nonpos (by linarith)]
    linarith

/-- A canonical pair is no nearer to a number than the whole number of units that it is rounded
to. -/
theorem NearestEven.abs_sub_pair_le (h : NearestEven whole (size / 2 ^ target))
    (hfull : target = -1074 ∨ 2 ^ 52 * 2 ^ target ≤ size) {mantissa : ℕ} {exponent : ℤ}
    (hpair : Canonical mantissa exponent) :
    |(whole : ℚ) * 2 ^ target - size| ≤ |mantissa * 2 ^ exponent - size| := by
  have hunit : (0 : ℚ) < 2 ^ target := by positivity
  have hgrid (count : ℕ) :
      |(whole : ℚ) * 2 ^ target - size| ≤ |(count : ℚ) * 2 ^ target - size| := by
    rw [abs_mul_unit_sub _ _ hunit, abs_mul_unit_sub _ _ hunit]
    exact mul_le_mul_of_nonneg_right (h.abs_sub_le count) hunit.le
  rcases hpair.onGrid_or_farther hfull with ⟨count, heq⟩ | hfarther
  · rw [heq]
    exact hgrid count
  · exact (hgrid (2 ^ 52)).trans hfarther.le

/-- Another canonical pair is as near to a number only if the whole number of units is even. -/
theorem NearestEven.even_of_pair_tie (h : NearestEven whole (size / 2 ^ target))
    (hfull : target = -1074 ∨ 2 ^ 52 * 2 ^ target ≤ size) {mantissa : ℕ} {exponent : ℤ}
    (hpair : Canonical mantissa exponent)
    (hne : (mantissa : ℚ) * 2 ^ exponent ≠ whole * 2 ^ target)
    (htie : |(mantissa : ℚ) * 2 ^ exponent - size| = |(whole : ℚ) * 2 ^ target - size|) :
    whole % 2 = 0 := by
  have hunit : (0 : ℚ) < 2 ^ target := by positivity
  rcases hpair.onGrid_or_farther hfull with ⟨count, heq⟩ | hfarther
  · rw [heq] at hne htie
    rw [abs_mul_unit_sub _ _ hunit, abs_mul_unit_sub _ _ hunit] at htie
    refine h.even_of_tie (fun hcount ↦ hne ?_) (mul_right_cancel₀ hunit.ne' htie)
    rw [hcount]
  · rw [htie, abs_mul_unit_sub _ _ hunit, abs_mul_unit_sub _ _ hunit] at hfarther
    exact absurd (h.abs_sub_le (2 ^ 52)) (lt_of_mul_lt_mul_right hfarther hunit.le).not_ge

/-- A number that is known by a mantissa and two more bits is rounded to a canonical pair than
which none is nearer. -/
theorem exists_nearest_pair (sign : Sign) {accuracy : Accuracy}
    (hstart : Represents (.ofMantissaAndAccuracy start accuracy) (size / 2 ^ scale))
    (hbits : 52 ≤ start.log2 ∨ scale ≤ -1074) :
    ∃ mantissa exponent, NearestPair size mantissa exponent ∧
      roundWithAccuracy .binary64 sign start scale accuracy = ofPair sign mantissa exponent := by
  obtain ⟨hlow, hhigh⟩ := hstart.start_bounds
  obtain ⟨extended, hfirst, hrounded⟩ := shiftToTargetExponent_nearest hstart hbits
  generalize htarget : Format.binary64.targetExponent (totalExponent start scale) = target at *
  obtain ⟨hleast, hbelow, hfull⟩ := target_bounds hlow hhigh hbits htarget
  have hunit : (0 : ℚ) < 2 ^ target := by positivity
  generalize hwhole : extended.roundedMantissa = whole at *
  have hmost : whole ≤ 2 ^ 53 := by
    have hlt := (div_lt_iff₀ hunit).mpr hbelow
    have : (whole : ℚ) < 2 ^ 53 + 1 := by linarith [hrounded.below]
    have : whole < 2 ^ 53 + 1 := by exact_mod_cast this
    omega
  have hround (mantissa : ℕ) (exponent : ℤ)
      (h : shiftToTargetExponent .binary64 whole target .exact =
        (⟨mantissa, false, false⟩, exponent)) :
      roundWithAccuracy .binary64 sign start scale accuracy = ofPair sign mantissa exponent := by
    unfold roundWithAccuracy ofPair
    rw [hfirst]
    dsimp only
    rw [hwhole, h]
  rcases hmost.lt_or_eq with hlt | rfl
  · refine ⟨whole, target, ⟨⟨hlt, hleast, ?_⟩, hrounded.abs_sub_pair_le hfull,
      hrounded.even_of_pair_tie hfull⟩, hround _ _ (shiftToTargetExponent_of_lt hlt hleast)⟩
    refine hfull.symm.imp_left fun hlarge ↦ ?_
    have hle := (le_div_iff₀ hunit).mpr hlarge
    have : (2 ^ 52 : ℚ) < whole + 1 := by linarith [hrounded.above]
    have : 2 ^ 52 < whole + 1 := by exact_mod_cast this
    omega
  · refine ⟨2 ^ 52, target + 1, ⟨⟨by norm_num, by omega, .inl le_rfl⟩, fun hpair ↦ ?_,
      fun _ _ _ ↦ by norm_num⟩, hround _ _ (shiftToTargetExponent_carry hleast)⟩
    have hcarry : ((2 ^ 52 : ℕ) : ℚ) * 2 ^ (target + 1) = (2 ^ 53 : ℕ) * 2 ^ target := by
      rw [zpow_add_one₀ two_ne_zero]
      push_cast
      ring
    rw [hcarry]
    exact hrounded.abs_sub_pair_le hfull hpair

end Grid

/-! ### Rounding with a sign -/

section Overflow

variable {mantissa : ℕ} {exponent : ℤ} {size : ℚ}

theorem canonical_above_doubles : Canonical (2 ^ 52) 972 := ⟨by norm_num, by norm_num, .inl le_rfl⟩

theorem canonical_largest_double : Canonical (2 ^ 53 - 1) 971 :=
  ⟨by norm_num, by norm_num, .inl (by norm_num)⟩

theorem value_above_doubles : ((2 ^ 52 : ℕ) : ℚ) * 2 ^ (972 : ℤ) = 2 ^ 53 * topUnit := by
  rw [show (972 : ℤ) = 971 + 1 by rfl, zpow_add_one₀ two_ne_zero, Nat.cast_pow, Nat.cast_ofNat,
    pow_succ 2 52, mul_assoc, mul_comm 2, topUnit]

theorem value_largest_double :
    ((2 ^ 53 - 1 : ℕ) : ℚ) * 2 ^ (971 : ℤ) = (2 ^ 53 - 1) * topUnit := by
  rw [Nat.cast_pred (by positivity), Nat.cast_pow, Nat.cast_ofNat, topUnit]

/-- If the pair nearest to a number has the exponent of a double, the number is no nearer to the
power of two above all doubles. -/
theorem NearestPair.le_overflowLimit (h : NearestPair size mantissa exponent)
    (hfits : exponent ≤ 971) : size ≤ overflowLimit := by
  have hdouble := (h.canonical.isDouble hfits).abs_le
  have hnear := h.le canonical_above_doubles
  rw [value_above_doubles] at hnear
  unfold overflowLimit
  by_contra hbeyond
  have hlow := neg_abs_le (mantissa * 2 ^ exponent - size)
  rcases abs_cases (2 ^ 53 * topUnit - size) with ⟨heq, -⟩ | ⟨heq, -⟩ <;>
    linarith [le_abs_self ((mantissa : ℚ) * 2 ^ exponent), topUnit_pos]

/-- If the pair nearest to a number has a larger exponent, the number is no nearer to the largest
double. -/
theorem NearestPair.overflowLimit_le (h : NearestPair size mantissa exponent)
    (hlarge : 971 < exponent) : overflowLimit ≤ size := by
  have habove : 2 ^ 53 * topUnit ≤ mantissa * 2 ^ exponent := by
    rw [← value_above_doubles]
    rcases (show 972 ≤ exponent from hlarge).eq_or_lt with rfl | hmore
    · have hfull : 2 ^ 52 ≤ mantissa := h.canonical.normal.resolve_right (by norm_num)
      exact mul_le_mul_of_nonneg_right (by exact_mod_cast hfull) (by positivity)
    · exact (canonical_above_doubles.lt_of_exponent_lt h.canonical hmore).le
  have hnear := h.le canonical_largest_double
  rw [value_largest_double] at hnear
  unfold overflowLimit
  by_contra hbelow
  have hhigh := le_abs_self (mantissa * 2 ^ exponent - size)
  rcases abs_cases ((2 ^ 53 - 1) * topUnit - size) with ⟨heq, -⟩ | ⟨heq, -⟩ <;>
    linarith [topUnit_pos]

end Overflow

theorem IsDouble.signed {number : ℚ} (h : IsDouble number) (sign : Sign) :
    IsDouble (signValue sign * number) := by
  cases sign with
  | positive => rwa [signValue, one_mul]
  | negative =>
    rw [signValue, neg_one_mul]
    exact h.neg

section NearestPair

variable {mantissa : ℕ} {exponent : ℤ} {size number : ℚ}

/-- What is below zero is farther from a size than zero, so than the nearest pair. -/
theorem NearestPair.lt_of_neg (h : NearestPair size mantissa exponent) (hnonneg : 0 ≤ size)
    (hneg : number < 0) : |mantissa * 2 ^ exponent - size| < |number - size| := by
  have hzero := h.le canonical_zero
  rw [Nat.cast_zero, zero_mul, zero_sub, abs_neg, abs_of_nonneg hnonneg] at hzero
  rw [abs_of_neg (by linarith : number - size < 0)]
  linarith

theorem NearestPair.le_of_isDouble (h : NearestPair size mantissa exponent) (hnonneg : 0 ≤ size)
    (hdouble : IsDouble number) : |mantissa * 2 ^ exponent - size| ≤ |number - size| := by
  rcases le_or_gt 0 number with hpos | hneg
  · obtain ⟨m, e, hpair, -, hsize⟩ := isDouble_iff.mp hdouble
    rw [abs_of_nonneg hpos] at hsize
    rw [hsize]
    exact h.le hpair
  · exact (h.lt_of_neg hnonneg hneg).le

theorem NearestPair.even_of_isDouble (h : NearestPair size mantissa exponent) (hnonneg : 0 ≤ size)
    (hdouble : IsDouble number) (hne : number ≠ mantissa * 2 ^ exponent)
    (htie : |number - size| = |mantissa * 2 ^ exponent - size|) : mantissa % 2 = 0 := by
  rcases le_or_gt 0 number with hpos | hneg
  · obtain ⟨m, e, hpair, -, hsize⟩ := isDouble_iff.mp hdouble
    rw [abs_of_nonneg hpos] at hsize
    rw [hsize] at hne htie
    exact h.even hpair hne htie
  · exact absurd htie (h.lt_of_neg hnonneg hneg).ne'

/-- The nearest pair makes the double that is nearest to the size with a sign. -/
theorem NearestPair.nearest_ofPair (h : NearestPair size mantissa exponent) (hnonneg : 0 ≤ size)
    (hfits : exponent ≤ 971) (sign : Sign) :
    Nearest (signValue sign * size) (.ofModel (.pack (ofPair sign mantissa exponent))) := by
  obtain ⟨hfinite, hvalue⟩ := ofPair_spec sign h.canonical hfits
  have hunit : signValue sign * signValue sign = 1 := by
    cases sign <;> norm_num [signValue]
  have hmirror (number : ℚ) :
      |number - signValue sign * size| = |signValue sign * number - size| := by
    rw [← one_mul |number - _|, ← abs_signValue sign, ← abs_mul, mul_sub, ← mul_assoc, hunit,
      one_mul]
  have hself : |value (.ofModel (.pack (ofPair sign mantissa exponent))) - signValue sign * size| =
      |mantissa * 2 ^ exponent - size| := by
    rw [hmirror, hvalue, ← mul_assoc, hunit, one_mul]
  refine ⟨hfinite, fun {other} hother ↦ ?_, fun {other} hother hne htie ↦ ?_⟩
  · rw [hself, hmirror]
    exact h.le_of_isDouble hnonneg (hother.signed sign)
  · rw [hself, hmirror] at htie
    refine ⟨mantissa, exponent, h.canonical, ?_,
      h.even_of_isDouble hnonneg (hother.signed sign) (fun heq ↦ hne ?_) htie⟩
    · rw [hvalue, abs_mul, abs_signValue, one_mul, abs_of_nonneg (by positivity)]
    · rw [hvalue, ← heq, ← mul_assoc, hunit, one_mul]

end NearestPair

/-- The double that a size is rounded to, with a sign. -/
theorem rounds_roundWithAccuracy (sign : Sign) {start : ℕ} {scale : ℤ} {accuracy : Accuracy}
    {size : ℚ} (hstart : Represents (.ofMantissaAndAccuracy start accuracy) (size / 2 ^ scale))
    (hbits : 52 ≤ start.log2 ∨ scale ≤ -1074) :
    Rounds (signValue sign * size)
      (.ofModel (.pack (roundWithAccuracy .binary64 sign start scale accuracy))) := by
  have hunit : (0 : ℚ) < 2 ^ scale := by positivity
  have hnonneg : 0 ≤ size := by
    have hle : 0 ≤ size / 2 ^ scale := (Nat.cast_nonneg start).trans hstart.start_bounds.1
    simpa using (le_div_iff₀ hunit).mp hle
  have hsize : |signValue sign * size| = size := by
    rw [abs_mul, abs_signValue, one_mul, abs_of_nonneg hnonneg]
  obtain ⟨mantissa, exponent, hpair, hround⟩ := exists_nearest_pair sign hstart hbits
  rw [hround]
  rcases le_or_gt exponent 971 with hfits | hlarge
  · exact .nearest (hpair.nearest_ofPair hnonneg hfits sign)
      (hsize.trans_le (hpair.le_overflowLimit hfits))
  · have hlimit := hpair.overflowLimit_le hlarge
    have hpos : 0 < size := overflowLimit_pos.trans_le hlimit
    refine .overflow ?_ (hsize.ge.trans' hlimit)
    rw [signOf_mul _ hpos, signOf_signValue]
    exact unpack_ofPair_infinity sign hpair.canonical hlarge

/-- A mantissa and an exponent are rounded. A large exponent is lowered first, so far that no bit
is missing. -/
theorem rounds_round (sign : Sign) (mantissa : ℕ) (hpos : 0 < mantissa) (exponent : ℤ) :
    Rounds (signValue sign * (mantissa * 2 ^ exponent))
      (.ofModel (.pack (UnpackedFloat.round .binary64 sign mantissa exponent))) := by
  unfold UnpackedFloat.round decreaseExponent
  dsimp only
  rw [targetExponent_eq]
  generalize hshift : (exponent - max ((mantissa.log2 : ℤ) + exponent - 52) (-1074)).toNat = shift
  rw [Nat.shiftLeft_eq]
  refine rounds_roundWithAccuracy sign ?_ ?_
  · have hvalue : (mantissa : ℚ) * 2 ^ exponent / 2 ^ (exponent - shift) =
        (mantissa * 2 ^ shift : ℕ) := by
      rw [zpow_sub₀ two_ne_zero, zpow_natCast]
      push_cast
      field_simp
    rw [hvalue]
    exact represents_exact _
  · by_cases hsmall : exponent - shift ≤ -1074
    · exact .inr hsmall
    · have hfull : 2 ^ 52 ≤ mantissa * 2 ^ shift :=
        calc 2 ^ 52 ≤ 2 ^ (mantissa.log2 + shift) := Nat.pow_le_pow_right two_pos (by omega)
          _ = 2 ^ mantissa.log2 * 2 ^ shift := Nat.pow_add ..
          _ ≤ mantissa * 2 ^ shift := Nat.mul_le_mul_right _ (Nat.log2_self_le hpos.ne')
      exact .inl ((Nat.le_log2 (by omega)).mpr hfull)

/-- A mantissa with a sign is rounded. -/
theorem rounds_normalize (mantissa exponent : ℤ) (zeroSign : Sign) :
    Rounds (mantissa * 2 ^ exponent)
      (.ofModel (.pack (UnpackedFloat.normalize .binary64 mantissa exponent zeroSign))) := by
  have hnat {number : ℤ} (h : 0 < number) : (number : ℚ) = (number.toNat : ℚ) := by
    exact_mod_cast (Int.toNat_of_nonneg h.le).symm
  unfold UnpackedFloat.normalize
  rcases lt_trichotomy mantissa 0 with hneg | rfl | hpos
  · rw [Int.compare_eq_lt.mpr hneg]
    have hround := rounds_round .negative (-mantissa).toNat (by omega) exponent
    rwa [← hnat (by omega), signValue, neg_one_mul, Int.cast_neg, neg_mul, neg_neg] at hround
  · rw [Int.compare_eq_eq.mpr rfl, Int.cast_zero, zero_mul]
    exact rounds_zero zeroSign
  · rw [Int.compare_eq_gt.mpr hpos]
    have hround := rounds_round .positive mantissa.toNat (by omega) exponent
    rwa [← hnat hpos, signValue, one_mul] at hround

/-! ### Arithmetic -/

/-- A mantissa with a sign that was shifted to a smaller exponent. -/
theorem apply_shiftLeft (sign : Sign) (mantissa : ℕ) {exponent common : ℤ} (h : common ≤ exponent) :
    ((sign.apply (mantissa <<< (exponent - common).toNat : ℕ) : ℤ) : ℚ) * 2 ^ common =
      signValue sign * (mantissa * 2 ^ exponent) := by
  obtain ⟨places, rfl⟩ : ∃ places : ℕ, exponent = places + common :=
    ⟨(exponent - common).toNat, by omega⟩
  rw [cast_apply, add_sub_cancel_right, Int.toNat_natCast, Nat.shiftLeft_eq, two_zpow_add]
  push_cast
  ring

theorem mul_finite (s₁ s₂ : Sign) {m₁ m₂ : ℕ} (e₁ e₂ : ℤ) (h₁ : 0 < m₁) (h₂ : 0 < m₂) :
    UnpackedFloat.mul .binary64 (.finite s₁ m₁ e₁ h₁) (.finite s₂ m₂ e₂ h₂) =
      roundWithAccuracy .binary64 (s₁ * s₂) (m₁ * m₂) (e₁ + e₂) .exact :=
  rfl

section Arithmetic

variable {x y : Float}

theorem rounds_add (hx : x.isFinite) (hy : y.isFinite) : Rounds (value x + value y) (x + y) := by
  change Rounds _ (.ofModel (.pack (UnpackedFloat.add .binary64 x.toModel.unpack y.toModel.unpack)))
  rcases isFinite_iff.mp hx with ⟨s₁, hunpack₁⟩ | ⟨s₁, m₁, e₁, hdouble₁, hunpack₁⟩ <;>
    rcases isFinite_iff.mp hy with ⟨s₂, hunpack₂⟩ | ⟨s₂, m₂, e₂, hdouble₂, hunpack₂⟩
  · rw [value_of_unpack_zero hunpack₁, value_of_unpack_zero hunpack₂, hunpack₁, hunpack₂, add_zero]
    unfold UnpackedFloat.add
    dsimp only
    split <;> exact rounds_zero _
  · have hsum : UnpackedFloat.add .binary64 x.toModel.unpack y.toModel.unpack =
        y.toModel.unpack := by
      rw [hunpack₁, hunpack₂]
      rfl
    rw [hsum, pack_unpack, value_of_unpack_zero hunpack₁, zero_add]
    exact rounds_value hy
  · have hsum : UnpackedFloat.add .binary64 x.toModel.unpack y.toModel.unpack =
        x.toModel.unpack := by
      rw [hunpack₁, hunpack₂]
      rfl
    rw [hsum, pack_unpack, value_of_unpack_zero hunpack₂, add_zero]
    exact rounds_value hx
  · rw [value_of_unpack_finite hunpack₁, value_of_unpack_finite hunpack₂, hunpack₁, hunpack₂,
      ← apply_shiftLeft s₁ m₁ (min_le_left e₁ e₂), ← apply_shiftLeft s₂ m₂ (min_le_right e₁ e₂),
      ← add_mul, ← Int.cast_add]
    exact rounds_normalize _ _ _

theorem rounds_sub (hx : x.isFinite) (hy : y.isFinite) : Rounds (value x - value y) (x - y) := by
  change Rounds _ (.ofModel (.pack (UnpackedFloat.sub .binary64 x.toModel.unpack y.toModel.unpack)))
  rcases isFinite_iff.mp hx with ⟨s₁, hunpack₁⟩ | ⟨s₁, m₁, e₁, hdouble₁, hunpack₁⟩ <;>
    rcases isFinite_iff.mp hy with ⟨s₂, hunpack₂⟩ | ⟨s₂, m₂, e₂, hdouble₂, hunpack₂⟩
  · rw [value_of_unpack_zero hunpack₁, value_of_unpack_zero hunpack₂, hunpack₁, hunpack₂, sub_zero]
    unfold UnpackedFloat.sub
    dsimp only
    split <;> exact rounds_zero _
  · have hdifference : UnpackedFloat.sub .binary64 x.toModel.unpack y.toModel.unpack =
        y.toModel.unpack.neg := by
      rw [hunpack₁, hunpack₂]
      rfl
    obtain ⟨hfinite, hvalue⟩ := neg_spec hy
    rw [hdifference, value_of_unpack_zero hunpack₁, zero_sub, ← hvalue]
    exact rounds_value hfinite
  · have hdifference : UnpackedFloat.sub .binary64 x.toModel.unpack y.toModel.unpack =
        x.toModel.unpack := by
      rw [hunpack₁, hunpack₂]
      rfl
    rw [hdifference, pack_unpack, value_of_unpack_zero hunpack₂, sub_zero]
    exact rounds_value hx
  · rw [value_of_unpack_finite hunpack₁, value_of_unpack_finite hunpack₂, hunpack₁, hunpack₂,
      ← apply_shiftLeft s₁ m₁ (min_le_left e₁ e₂), ← apply_shiftLeft s₂ m₂ (min_le_right e₁ e₂),
      ← sub_mul, ← Int.cast_sub]
    exact rounds_normalize _ _ _

theorem rounds_mul (hx : x.isFinite) (hy : y.isFinite) : Rounds (value x * value y) (x * y) := by
  change Rounds _ (.ofModel (.pack (UnpackedFloat.mul .binary64 x.toModel.unpack y.toModel.unpack)))
  rcases isFinite_iff.mp hx with ⟨s₁, hunpack₁⟩ | ⟨s₁, m₁, e₁, hdouble₁, hunpack₁⟩ <;>
    rcases isFinite_iff.mp hy with ⟨s₂, hunpack₂⟩ | ⟨s₂, m₂, e₂, hdouble₂, hunpack₂⟩
  · rw [value_of_unpack_zero hunpack₁, zero_mul, hunpack₁, hunpack₂]
    exact rounds_zero _
  · rw [value_of_unpack_zero hunpack₁, zero_mul, hunpack₁, hunpack₂]
    exact rounds_zero _
  · rw [value_of_unpack_zero hunpack₂, mul_zero, hunpack₁, hunpack₂]
    exact rounds_zero _
  · have hsize : signValue s₁ * (m₁ * 2 ^ e₁) * (signValue s₂ * (m₂ * 2 ^ e₂)) =
        signValue (s₁ * s₂) * (m₁ * 2 ^ e₁ * (m₂ * 2 ^ e₂) : ℚ) := by
      rw [signValue_mul]
      ring
    rw [value_of_unpack_finite hunpack₁, value_of_unpack_finite hunpack₂, hunpack₁, hunpack₂, hsize]
    refine rounds_roundWithAccuracy _ (represents_mul m₁ m₂ e₁ e₂) ?_
    have hfull {wide other : ℕ} (hwide : 2 ^ 52 ≤ wide) (hpos : 0 < other) :
        52 ≤ (wide * other).log2 :=
      (Nat.le_log2 (by positivity)).mpr (hwide.trans (Nat.le_mul_of_pos_right _ hpos))
    rcases hdouble₁.normal with hwide | rfl
    · exact .inl (hfull hwide hdouble₂.pos)
    · rcases hdouble₂.normal with hwide | rfl
      · rw [mul_comm m₁]
        exact .inl (hfull hwide hdouble₁.pos)
      · exact .inr (by norm_num)

/-- A finite double divided by one that is not zero. -/
theorem rounds_div (hx : x.isFinite) (hy : y.isFinite) (hnonzero : value y ≠ 0) :
    Rounds (value x / value y) (x / y) := by
  change Rounds _ (.ofModel (.pack (UnpackedFloat.div .binary64 x.toModel.unpack y.toModel.unpack)))
  rcases isFinite_iff.mp hy with ⟨s₂, hunpack₂⟩ | ⟨s₂, m₂, e₂, hdouble₂, hunpack₂⟩
  · exact absurd (value_of_unpack_zero hunpack₂) hnonzero
  rcases isFinite_iff.mp hx with ⟨s₁, hunpack₁⟩ | ⟨s₁, m₁, e₁, hdouble₁, hunpack₁⟩
  · rw [value_of_unpack_zero hunpack₁, zero_div, hunpack₁, hunpack₂]
    exact rounds_zero _
  · have hsize : signValue s₁ * (m₁ * 2 ^ e₁) / (signValue s₂ * (m₂ * 2 ^ e₂)) =
        signValue (s₁ / s₂) * (m₁ * 2 ^ e₁ / (m₂ * 2 ^ e₂) : ℚ) := by
      rw [signValue_div]
      exact mul_div_mul_comm _ _ _ _
    obtain ⟨hstart, hbits⟩ := represents_divCore hdouble₁.pos hdouble₂.pos e₁ e₂
    rw [value_of_unpack_finite hunpack₁, value_of_unpack_finite hunpack₂, hunpack₁, hunpack₂, hsize]
    exact rounds_roundWithAccuracy _ hstart hbits

end Arithmetic

/-! ### Whole numbers -/

/-- Whole numbers below `2 ^ 53` are values of doubles. -/
theorem isDouble_natCast (number : ℕ) (hlt : number < 2 ^ 53) : IsDouble number := by
  have hdouble := isDouble_of_lt hlt 1074 (by norm_num)
  rwa [Nat.cast_ofNat, sub_self, zpow_zero, mul_one] at hdouble

/-- A whole number is rounded to the double nearest to it. -/
theorem rounds_ofNat (number : ℕ) (hpos : 0 < number) : Rounds number (Float.ofNat number) := by
  change Rounds number (Float.ofScientific number false 0)
  unfold Float.ofScientific
  split
  · rename_i hsmall
    obtain ⟨m₁, e₁, hdouble, -, hvalue₁, hunpack₁⟩ := unpack_toFloat hpos hsmall.1
    obtain ⟨m₂, e₂, hpos₂, hvalue₂, hunpack₂⟩ :=
      unpack_exactlyRepresentablePowersOfTen (show 0 < _ by decide)
    have hproduct := rounds_mul (isFinite_of_unpack hunpack₁) (isFinite_of_unpack hunpack₂)
    rwa [value_of_unpack_finite hunpack₁, value_of_unpack_finite hunpack₂, hvalue₁, hvalue₂,
      signValue, one_mul, pow_zero, mul_one, mul_one] at hproduct
  · have hrange : ¬(0 : ℤ) < -((2 ^ Format.binary64.exponentBits : ℤ) + number.log2) := by
      have : (0 : ℤ) ≤ 2 ^ Format.binary64.exponentBits := by positivity
      omega
    show Rounds number (.ofModel (.pack (UnpackedFloat.ofScientific .binary64 number 0)))
    unfold UnpackedFloat.ofScientific
    rw [dif_neg hpos.ne', if_neg (by decide), if_neg hrange, if_pos le_rfl]
    rw [mul_finite]
    have hstart := represents_mul (number <<< Format.binary64.mantissaBits) (10 ^ (0 : ℤ).toNat)
      (-(Format.binary64.mantissaBits : ℤ)) 0
    have hvalue : ((number <<< Format.binary64.mantissaBits : ℕ) : ℚ) *
        2 ^ (-(Format.binary64.mantissaBits : ℤ)) *
          ((10 ^ (0 : ℤ).toNat : ℕ) * 2 ^ (0 : ℤ)) = number := by
      rw [Nat.shiftLeft_eq, zpow_neg, zpow_natCast]
      simp
    rw [hvalue] at hstart
    have hround := rounds_roundWithAccuracy .positive hstart (.inl ?_)
    · rwa [signValue, one_mul] at hround
    · rw [Nat.shiftLeft_eq, Int.toNat_zero, pow_zero, mul_one]
      have hfull : 2 ^ 52 ≤ number * 2 ^ Format.binary64.mantissaBits := by
        change 2 ^ 52 ≤ number * 2 ^ 53
        omega
      exact (Nat.le_log2 (by omega)).mpr hfull

/-! ### Between a double and the next -/

/-- A number less than half way to the next double is rounded no further than to the double
before. -/
theorem Nearest.value_le_of_lt_half {mantissa : ℕ} {exponent : ℤ} {number : ℚ} {x : Float}
    (h : Nearest number x) (hpair : Canonical mantissa exponent) (hmax : exponent ≤ 971)
    (hlt : number < (mantissa + 1 / 2) * 2 ^ exponent) : value x ≤ mantissa * 2 ^ exponent := by
  have hnonneg : (0 : ℚ) ≤ mantissa * 2 ^ exponent := by positivity
  by_contra hgt
  rw [not_le] at hgt
  have hnext := hpair.add_one_le (isDouble_value h.finite) hgt
  have hdouble : IsDouble (mantissa * 2 ^ exponent) := hpair.isDouble hmax
  rcases le_total number (mantissa * 2 ^ exponent) with hle | hge
  · exact absurd (h.value_le hdouble hle) hgt.not_ge
  · have hnear := h.le hdouble
    rw [abs_of_nonneg (by linarith), abs_of_nonpos (by linarith)] at hnear
    linarith

/-- A number more than half way to the next double is rounded to no less than the next. -/
theorem Nearest.le_value_of_half_lt {mantissa : ℕ} {exponent : ℤ} {number : ℚ} {x : Float}
    (h : Nearest number x) (hpair : Canonical mantissa exponent) (hmax : exponent ≤ 970)
    (hlt : (mantissa + 1 / 2) * 2 ^ exponent < number) :
    (mantissa + 1) * 2 ^ exponent ≤ value x := by
  have hunit : (0 : ℚ) < 2 ^ exponent := by positivity
  by_contra hless
  have hbefore : value x ≤ mantissa * 2 ^ exponent := by
    by_contra hgt
    exact hless (hpair.add_one_le (isDouble_value h.finite) (not_le.mp hgt))
  have hnext : IsDouble ((mantissa + 1) * 2 ^ exponent) := by
    have hcount : |(mantissa : ℤ) + 1| ≤ 2 ^ 53 := by
      have := hpair.lt
      rw [abs_of_nonneg (by positivity)]
      omega
    exact_mod_cast isDouble_grid hcount hpair.le_exponent hmax
  rcases le_total (((mantissa : ℚ) + 1) * 2 ^ exponent) number with hle | hge
  · exact hless (h.le_value hnext hle)
  · have hnear := h.le hnext
    rw [abs_of_nonpos (by linarith), abs_of_nonneg (by linarith)] at hnear
    linarith

/-- A number between the numbers half way to the doubles before and after is rounded to the double
in the middle, unless that is a power of two. -/
theorem Rounds.eq_of_between {mantissa : ℕ} {exponent : ℤ} {number : ℚ} {x : Float}
    (h : Rounds number x) (hpair : Canonical mantissa exponent)
    (hnext : Canonical (mantissa + 1) exponent) (hmax : exponent ≤ 970)
    (hlow : (mantissa + 1 / 2) * 2 ^ exponent < number)
    (hhigh : number < (mantissa + 1 + 1 / 2) * 2 ^ exponent) :
    x.isFinite ∧ value x = (mantissa + 1) * 2 ^ exponent := by
  have hunit : (0 : ℚ) < 2 ^ exponent := by positivity
  have hpos : 0 < number := lt_trans (by positivity) hlow
  have hnearest : Nearest number x := by
    have hcount : |(mantissa : ℤ) + 2| ≤ 2 ^ 53 := by
      have := hnext.lt
      rw [abs_of_nonneg (by positivity)]
      omega
    refine h.nearest_of_le (isDouble_grid hcount hnext.le_exponent hmax) ?_
    rw [abs_of_pos hpos]
    refine le_trans ?_ (le_abs_self _)
    push_cast
    linarith
  refine ⟨hnearest.finite, le_antisymm ?_ (hnearest.le_value_of_half_lt hpair hmax hlow)⟩
  have hle := hnearest.value_le_of_lt_half hnext (by omega) (by push_cast; exact hhigh)
  exact_mod_cast hle

/-! ### How far a number is rounded -/

section Distance

variable {number : ℚ} {x : Float}

/-- A number that is a double is not rounded. -/
theorem Rounds.exact (h : Rounds number x) (hdouble : IsDouble number) :
    x.isFinite ∧ value x = number := by
  have hnearest := h.nearest_of_le hdouble le_rfl
  exact ⟨hnearest.finite, le_antisymm (hnearest.value_le hdouble le_rfl)
    (hnearest.le_value hdouble le_rfl)⟩

/-- A number is rounded by half a unit at most, whichever unit it is less than `2 ^ 53` of. -/
theorem Rounds.abs_sub_le {exponent : ℤ} (h : Rounds number x)
    (hsize : |number| ≤ 2 ^ 53 * 2 ^ exponent) (hleast : -1074 ≤ exponent)
    (hmax : exponent ≤ 970) : x.isFinite ∧ |value x - number| ≤ 2 ^ exponent / 2 := by
  have hunit : (0 : ℚ) < 2 ^ exponent := by positivity
  have hgrid (count : ℤ) (hcount : |count| ≤ 2 ^ 53) : IsDouble (count * 2 ^ exponent) :=
    isDouble_grid hcount hleast hmax
  have hnearest : Nearest number x := by
    refine h.nearest_of_le (hgrid (2 ^ 53) (by norm_num)) (hsize.trans ?_)
    rw [Int.cast_pow, Int.cast_ofNat]
    exact le_abs_self _
  obtain ⟨count, hround⟩ : ∃ count : ℤ, |number / 2 ^ exponent - count| ≤ 1 / 2 :=
    ⟨_, abs_sub_round _⟩
  rw [abs_sub_comm] at hround
  have hcount : |count| ≤ 2 ^ 53 := by
    have hle : |number / 2 ^ exponent| ≤ 2 ^ 53 := by
      rwa [abs_div, abs_of_pos hunit, div_le_iff₀ hunit]
    have hlt : |(count : ℚ)| < 2 ^ 53 + 1 := by
      linarith [abs_sub_abs_le_abs_sub (count : ℚ) (number / 2 ^ exponent)]
    exact Int.lt_add_one_iff.mp (by exact_mod_cast hlt)
  refine ⟨hnearest.finite, (hnearest.le (hgrid count hcount)).trans ?_⟩
  calc |(count : ℚ) * 2 ^ exponent - number|
      = |(count : ℚ) - number / 2 ^ exponent| * 2 ^ exponent := abs_mul_unit_sub _ _ hunit
    _ ≤ 1 / 2 * 2 ^ exponent := mul_le_mul_of_nonneg_right hround hunit.le
    _ = 2 ^ exponent / 2 := by ring

end Distance

end SpiralMachine.Number
