import Mathlib.Algebra.Order.Archimedean.Basic
import SpiralMachine.Proofs.Number.Range

/-!
# Overflow and precision

Results are finite below the overflow limit and at no greater size (`Rounds.isFinite_of_lt`,
`Rounds.nearest_of_isFinite`), and a finite result has finite arguments (`isFinite_of_add`,
`isFinite_of_mul`). From the smallest normal double on, less than one part in `2 ^ 52` of a number
is lost when it is rounded, for there is a double so little below it (`exists_isDouble_le`).

A number has one nearest double (`Nearest.value_unique`): of two that are as near, both would have
even mantissas, and between such doubles there is another, which is nearer.

A lower bound that allows for overflow is `AtLeast`: the double is finite and no less than the
bound, or it is the positive infinity.
-/

set_option autoImplicit false

namespace SpiralMachine.Number

open Float.Model Float.Model.UnpackedFloat

/-! ### Finite doubles -/

section Finite

variable {x y low high : Float} {number : ℚ}

/-- Only finite parts are packed as a finite double. -/
theorem isFinite_of_pack {parts : UnpackedFloat} (h : (Float.ofModel (.pack parts)).isFinite) :
    parts.isFinite = true := by
  change (Float.Model.pack parts).unpack.isFinite = true at h
  cases parts with
  | notANumber => exact absurd h (by decide)
  | infinity sign =>
    rw [unpack_pack_infinity] at h
    exact h
  | zero sign => rfl
  | finite sign mantissa exponent hpos => rfl

/-- A sum is finite only if both terms are. -/
theorem isFinite_of_add (h : (x + y).isFinite) : x.isFinite ∧ y.isFinite := by
  have hsum : (UnpackedFloat.add .binary64 x.toModel.unpack y.toModel.unpack).isFinite = true :=
    isFinite_of_pack h
  change x.toModel.unpack.isFinite = true ∧ y.toModel.unpack.isFinite = true
  cases hx : x.toModel.unpack <;> cases hy : y.toModel.unpack <;> rw [hx, hy] at hsum <;>
    first | exact ⟨rfl, rfl⟩ | skip
  -- infinities of different signs have no sum
  case infinity.infinity sign other =>
    change (if sign == other then infinity sign else notANumber).isFinite = true at hsum
    split at hsum <;> cases hsum
  all_goals cases hsum

/-- A product is finite only if both factors are. -/
theorem isFinite_of_mul (h : (x * y).isFinite) : x.isFinite ∧ y.isFinite := by
  have hproduct : (UnpackedFloat.mul .binary64 x.toModel.unpack y.toModel.unpack).isFinite =
      true :=
    isFinite_of_pack h
  change x.toModel.unpack.isFinite = true ∧ y.toModel.unpack.isFinite = true
  cases hx : x.toModel.unpack <;> cases hy : y.toModel.unpack <;> rw [hx, hy] at hproduct <;>
    first | exact ⟨rfl, rfl⟩ | cases hproduct

/-- What is between two finite doubles is finite. -/
theorem isFinite_of_between (hlow : low.isFinite) (hhigh : high.isFinite) (hle : low ≤ x)
    (hge : x ≤ high) : x.isFinite := by
  replace hle : low.toModel.unpack.le x.toModel.unpack = true := of_decide_eq_true hle
  replace hge : x.toModel.unpack.le high.toModel.unpack = true := of_decide_eq_true hge
  change x.toModel.unpack.isFinite = true
  cases hunpack : x.toModel.unpack with
  | notANumber =>
    rw [hunpack] at hge
    cases hge
  | infinity sign =>
    cases sign with
    | negative =>
      rcases isFinite_iff.mp hlow with ⟨_, hlow⟩ | ⟨s, _, _, _, hlow⟩
      · rw [hunpack, hlow] at hle
        cases hle
      · rw [hunpack, hlow] at hle
        cases s <;> cases hle
    | positive =>
      rcases isFinite_iff.mp hhigh with ⟨_, hhigh⟩ | ⟨s, _, _, _, hhigh⟩ <;>
        rw [hunpack, hhigh] at hge <;> cases hge
  | zero sign => rfl
  | finite sign mantissa exponent hpos => rfl

/-- What is rounded is not infinite below the overflow limit. -/
theorem Rounds.isFinite_of_lt (h : Rounds number x) (hlt : |number| < overflowLimit) :
    x.isFinite := by
  cases h with
  | nearest hnearest _ => exact hnearest.finite
  | overflow _ hlarge => exact absurd hlt hlarge.not_gt

/-- The power of two above all doubles, in units of the largest. -/
theorem power_above_doubles : (2 : ℚ) ^ (1024 : ℤ) = 2 ^ 53 * topUnit := by
  rw [show (1024 : ℤ) = (53 : ℕ) + 971 by rfl, two_zpow_add, topUnit]

theorem overflowLimit_lt : overflowLimit < 2 ^ (1024 : ℤ) := by
  rw [power_above_doubles]
  exact mul_lt_mul_of_pos_right (by norm_num) topUnit_pos

/-- What is rounded to a finite double is rounded to the nearest, and within the overflow limit. -/
theorem Rounds.nearest_of_isFinite (h : Rounds number x) (hfinite : x.isFinite) :
    Nearest number x ∧ |number| ≤ overflowLimit := by
  cases h with
  | nearest hnearest hsmall => exact ⟨hnearest, hsmall⟩
  | overflow hunpack _ =>
    change x.toModel.unpack.isFinite = true at hfinite
    rw [hunpack] at hfinite
    cases hfinite

/-- A finite double times a weight does not overflow. -/
theorem Within.nearest_mul (hy : Within 0 1 y) (hx : x.isFinite) :
    Nearest (value x * value y) (x * y) := by
  refine (rounds_mul hx hy.finite).nearest_of_le (isDouble_value hx) ?_
  rw [abs_mul, abs_of_nonneg hy.low_le]
  exact mul_le_of_le_one_right (abs_nonneg _) hy.le_high

end Finite

/-! ### Precision -/

section Precision

variable {x y : Float} {number other : ℚ}

/-- A normal number has a double below it that is less than one part in `2 ^ 52` smaller. -/
theorem exists_isDouble_le (hlow : 2 ^ (-1022 : ℤ) ≤ number) (hhigh : number < 2 ^ (1024 : ℤ)) :
    ∃ double, IsDouble double ∧ (1 - 1 / 2 ^ 52) * number ≤ double ∧ double ≤ number := by
  have hpos : 0 < number := lt_of_lt_of_le (by positivity) hlow
  obtain ⟨power, hfloor, hceil⟩ := exists_mem_Ico_zpow hpos one_lt_two
  have hleast : -1022 < power + 1 := lt_of_power_le hlow hceil
  have hmost : power < 1024 := lt_of_power_le hfloor hhigh
  obtain ⟨exponent, rfl⟩ : ∃ exponent, power = 52 + exponent := ⟨power - 52, by ring⟩
  have hunit : (0 : ℚ) < 2 ^ exponent := by positivity
  have hfull : 2 ^ 52 * 2 ^ exponent ≤ number := (two_zpow_add 52 exponent).ge.trans hfloor
  have hless : number < 2 ^ 53 * 2 ^ exponent := by
    refine hceil.trans_eq ?_
    rw [← two_zpow_add 53]
    congr 1
    push_cast
    ring
  rw [← le_div_iff₀ hunit] at hfull
  rw [← div_lt_iff₀ hunit] at hless
  have hfloor := Nat.floor_le (div_pos hpos hunit).le
  have hceil := Nat.lt_floor_add_one (number / 2 ^ exponent)
  rw [le_div_iff₀ hunit] at hfloor
  rw [div_lt_iff₀ hunit] at hceil
  have hcanonical : Canonical ⌊number / 2 ^ exponent⌋₊ exponent :=
    ⟨(Nat.floor_lt (div_pos hpos hunit).le).mpr (by exact_mod_cast hless), by omega,
      .inl (Nat.le_floor (by exact_mod_cast hfull))⟩
  refine ⟨_, hcanonical.isDouble (by omega), ?_, hfloor⟩
  rw [le_div_iff₀ hunit] at hfull
  linarith

/-- Rounding loses less than one part in `2 ^ 52` of the size of a normal number. -/
theorem Nearest.le_abs_value (h : Nearest number x) (hlow : 2 ^ (-1022 : ℤ) ≤ |number|)
    (hhigh : |number| < 2 ^ (1024 : ℤ)) : (1 - 1 / 2 ^ 52) * |number| ≤ |value x| := by
  obtain ⟨double, hdouble, hloss, hle⟩ := exists_isDouble_le hlow hhigh
  refine hloss.trans ?_
  rcases abs_cases number with ⟨heq, -⟩ | ⟨heq, -⟩
  · exact (h.le_value hdouble (hle.trans_eq heq)).trans (le_abs_self _)
  · have hvalue := h.value_le hdouble.neg (by linarith)
    linarith [neg_le_abs (value x)]

/-- Rounding does not turn the order of two numbers. -/
theorem Nearest.value_mono (hx : Nearest number x) (hy : Nearest other y) (hlt : number < other) :
    value x ≤ value y := by
  by_contra hgt
  rw [not_le] at hgt
  have hfirst := hx.le (isDouble_value hy.finite)
  have hsecond := hy.le (isDouble_value hx.finite)
  -- each of the numbers would be beyond the middle of the two doubles
  have hmiddle : value y + value x ≤ 2 * number := by
    by_contra hless
    have := neg_abs_le (value y - number)
    rcases abs_cases (value y - number) with ⟨heq, _⟩ | ⟨heq, _⟩ <;>
      linarith [le_abs_self (value x - number)]
  have hmiddle' : 2 * other ≤ value y + value x := by
    by_contra hless
    rcases abs_cases (value x - other) with ⟨heq, _⟩ | ⟨heq, _⟩ <;>
      linarith [neg_abs_le (value y - other)]
  linarith

end Precision

/-! ### The least positive double -/

section Least

variable {number low high : ℚ}

theorem isDouble_least : IsDouble (2 ^ (-1074 : ℤ)) := by
  have hpair : Canonical 1 (-1074) := ⟨by norm_num, le_rfl, .inr rfl⟩
  simpa using hpair.isDouble (by norm_num)

/-- Two doubles are at least the least positive double apart. -/
theorem IsDouble.least_le_sub (hlow : IsDouble low) (hhigh : IsDouble high) (hnonneg : 0 ≤ low)
    (hlt : low < high) : 2 ^ (-1074 : ℤ) ≤ high - low := by
  obtain ⟨m, e, hpair, -, hsize⟩ := isDouble_iff.mp hlow
  rw [abs_of_nonneg hnonneg] at hsize
  have hnext := hpair.add_one_le hhigh (hsize ▸ hlt)
  have hunit : (2 : ℚ) ^ (-1074 : ℤ) ≤ 2 ^ e := zpow_le_zpow_right₀ one_le_two hpair.le_exponent
  linarith

theorem IsDouble.least_le (h : IsDouble number) (hpos : 0 < number) :
    2 ^ (-1074 : ℤ) ≤ number := by
  simpa using isDouble_zero.least_le_sub h le_rfl hpos

end Least

/-! ### There is one nearest double -/

section Unique

variable {x y : Float} {number low high : ℚ}

theorem exists_isDouble_between_of_nonneg (hlow : IsDouble low) (hhigh : IsDouble high)
    (hevenLow : HasEvenMantissa low) (hevenHigh : HasEvenMantissa high) (hnonneg : 0 ≤ low)
    (hlt : low < high) : ∃ double, IsDouble double ∧ low < double ∧ double < high := by
  obtain ⟨m, e, hpair, hmax, hsize⟩ := isDouble_iff.mp hlow
  have heven := hevenLow.even hpair hsize
  rw [abs_of_nonneg hnonneg] at hsize
  have hnext : Canonical (m + 1) e :=
    ⟨by have := hpair.lt; omega, hpair.le_exponent, hpair.normal.imp_left fun hfull ↦ by omega⟩
  have hle : ((m + 1 : ℕ) : ℚ) * 2 ^ e ≤ high := by
    push_cast
    exact hpair.add_one_le hhigh (hsize ▸ hlt)
  refine ⟨_, hnext.isDouble hmax, ?_, hle.lt_of_ne fun heq ↦ ?_⟩
  · rw [hsize]
    exact mul_lt_mul_of_pos_right (by push_cast; linarith) (by positivity)
  · have hodd := hevenHigh.even hnext (by rw [abs_of_pos (hnonneg.trans_lt hlt), heq])
    omega

/-- Between two doubles with even mantissas there is another. -/
theorem exists_isDouble_between (hlow : IsDouble low) (hhigh : IsDouble high)
    (hevenLow : HasEvenMantissa low) (hevenHigh : HasEvenMantissa high) (hlt : low < high) :
    ∃ double, IsDouble double ∧ low < double ∧ double < high := by
  rcases le_or_gt 0 low with hnonneg | hneg
  · exact exists_isDouble_between_of_nonneg hlow hhigh hevenLow hevenHigh hnonneg hlt
  rcases le_or_gt high 0 with hnonpos | hpos
  · obtain ⟨double, hdouble, hless, hmore⟩ := exists_isDouble_between_of_nonneg hhigh.neg hlow.neg
      hevenHigh.neg hevenLow.neg (neg_nonneg.mpr hnonpos) (neg_lt_neg hlt)
    exact ⟨-double, hdouble.neg, lt_neg.mp hmore, neg_lt.mp hless⟩
  · exact ⟨0, isDouble_zero, hneg, hpos⟩

theorem Nearest.not_value_lt (hx : Nearest number x) (hy : Nearest number y) :
    ¬value x < value y := by
  intro hlt
  have hdoubleX := isDouble_value hx.finite
  have hdoubleY := isDouble_value hy.finite
  have htie : |value y - number| = |value x - number| := le_antisymm (hy.le hdoubleX) (hx.le hdoubleY)
  obtain ⟨double, hdouble, hless, hmore⟩ := exists_isDouble_between hdoubleX hdoubleY
    (hx.even hdoubleY hlt.ne' htie) (hy.even hdoubleX hlt.ne htie.symm) hlt
  -- the number is in the middle, so that what is between the two is nearer
  have hmiddle : value y - number = number - value x := by
    rcases abs_eq_abs.mp htie with heq | heq <;> linarith
  have hnear := hx.le hdouble
  rw [abs_of_neg (by linarith : value x - number < 0), le_abs] at hnear
  rcases hnear with hnear | hnear <;> linarith

/-- A number has one nearest double. -/
theorem Nearest.value_unique (hx : Nearest number x) (hy : Nearest number y) :
    value x = value y :=
  le_antisymm (not_lt.mp (hy.not_value_lt hx)) (not_lt.mp (hx.not_value_lt hy))

end Unique

/-! ### Lower bounds -/

/-- A double no less than a number: a finite one, or the positive infinity. -/
inductive AtLeast (bound : ℚ) (x : Float) : Prop where
  | finite : x.isFinite → bound ≤ value x → AtLeast bound x
  | infinite : x.toModel.unpack = .infinity .positive → AtLeast bound x

section AtLeast

variable {bound number lower : ℚ} {x y : Float}

theorem AtLeast.isNaN (h : AtLeast bound x) : x.isNaN = false := by
  cases h with
  | finite hfinite _ => exact isNaN_of_isFinite hfinite
  | infinite hunpack =>
    change x.toModel.unpack.isNaN = false
    rw [hunpack]
    rfl

theorem AtLeast.le (h : AtLeast (value y) x) (hy : y.isFinite) : y ≤ x := by
  cases h with
  | finite hfinite hle => exact (le_iff hy hfinite).mpr hle
  | infinite hunpack =>
    change decide (y.toModel.unpack.le x.toModel.unpack = true) = true
    rcases isFinite_iff.mp hy with ⟨_, hy⟩ | ⟨s, _, _, _, hy⟩ <;> rw [hunpack, hy]
    · rfl
    · cases s <;> rfl

/-- What is at least a positive number is not zero. -/
theorem AtLeast.ne_zero (h : AtLeast bound x) (hpos : 0 < bound) : ¬x == 0.0 := by
  cases h with
  | finite hfinite hle =>
    rw [beq_zero_iff hfinite]
    exact (hpos.trans_le hle).ne'
  | infinite hunpack =>
    change ¬x.toModel.unpack.beq (0.0 : Float).toModel.unpack = true
    rw [hunpack]
    decide

theorem AtLeast.mono (h : AtLeast bound x) (hle : lower ≤ bound) : AtLeast lower x := by
  cases h with
  | finite hfinite hbound => exact .finite hfinite (hle.trans hbound)
  | infinite hunpack => exact .infinite hunpack

/-- A positive number is rounded to no less than what a smaller number is rounded to. -/
theorem Rounds.atLeast_of_lt (h : Rounds number x) (hy : Nearest lower y) (hlt : lower < number)
    (hpos : 0 < number) : AtLeast (value y) x := by
  cases h with
  | nearest hnearest _ => exact .finite hnearest.finite (hy.value_mono hnearest hlt)
  | overflow hunpack _ =>
    rw [signOf, if_neg hpos.not_gt] at hunpack
    exact .infinite hunpack

end AtLeast

end SpiralMachine.Number
