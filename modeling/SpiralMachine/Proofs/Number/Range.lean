import Mathlib.Algebra.Order.Ring.Abs
import SpiralMachine.Proofs.Number.SquareRoot

/-!
# Ranges of doubles

`Within` says of a double that it is finite and between two numbers. Where the ends are
values of doubles, rounding does not lead out of a range (`Rounds.within`), so that the result of
every operation has a range, which the ranges of its arguments give.
-/

set_option autoImplicit false

namespace SpiralMachine.Number

open Float.Model

/-- A finite double between two numbers. -/
structure Within (low high : ℚ) (x : Float) : Prop where
  finite : x.isFinite
  low_le : low ≤ value x
  le_high : value x ≤ high

section Doubles

variable {number : ℕ}

theorem isDouble_zero : IsDouble 0 := by
  simpa using isDouble_natCast 0 (by norm_num)

theorem isDouble_one : IsDouble 1 := by
  simpa using isDouble_natCast 1 (by norm_num)

theorem isDouble_ofNat [number.AtLeastTwo] (hlt : number < 2 ^ 53) :
    IsDouble (OfNat.ofNat number : ℚ) := by
  have hdouble := isDouble_natCast (OfNat.ofNat number) hlt
  rwa [Nat.cast_ofNat] at hdouble

theorem isDouble_intCast {number : ℤ} (hlt : number.natAbs < 2 ^ 53) : IsDouble number := by
  have hcount : |number| ≤ 2 ^ 53 := by
    rw [Int.abs_eq_natAbs]
    omega
  have hdouble : IsDouble (number * 2 ^ (0 : ℤ)) := isDouble_grid hcount (by norm_num) (by norm_num)
  rwa [zpow_zero, mul_one] at hdouble

theorem isDouble_two_pow {power : ℕ} (hlt : power < 1024) : IsDouble (2 ^ power) := by
  have hpair : Canonical (2 ^ 52) (power - 52) := ⟨by norm_num, by omega, .inl le_rfl⟩
  have hdouble := hpair.isDouble (by omega)
  rw [zpow_sub₀ two_ne_zero, zpow_natCast] at hdouble
  push_cast at hdouble
  rwa [mul_div_cancel₀ _ (by norm_num)] at hdouble

end Doubles

section Within

variable {low high low' high' number : ℚ} {x y : Float}

theorem within_value (h : x.isFinite) : Within (value x) (value x) x :=
  ⟨h, le_rfl, le_rfl⟩

theorem Within.mono (h : Within low high x) (hlow : low' ≤ low) (hhigh : high ≤ high') :
    Within low' high' x :=
  ⟨h.finite, hlow.trans h.low_le, h.le_high.trans hhigh⟩

/-- A number between two doubles is rounded to a double between them. -/
theorem Rounds.within (h : Rounds number x) (hlow : IsDouble low) (hhigh : IsDouble high)
    (hle : low ≤ number) (hge : number ≤ high) : Within low high x := by
  have hnearest : Nearest number x := by
    rcases le_total 0 number with hpos | hneg
    · refine h.nearest_of_le hhigh ?_
      rw [abs_of_nonneg hpos]
      exact hge.trans (le_abs_self high)
    · refine h.nearest_of_le hlow ?_
      rw [abs_of_nonpos hneg]
      linarith [neg_abs_le low]
  exact ⟨hnearest.finite, hnearest.le_value hlow hle, hnearest.value_le hhigh hge⟩

theorem Within.add (hx : Within low high x) (hy : Within low' high' y)
    (hlow : IsDouble (low + low')) (hhigh : IsDouble (high + high')) :
    Within (low + low') (high + high') (x + y) :=
  (rounds_add hx.finite hy.finite).within hlow hhigh (add_le_add hx.low_le hy.low_le)
    (add_le_add hx.le_high hy.le_high)

theorem Within.sub (hx : Within low high x) (hy : Within low' high' y)
    (hlow : IsDouble (low - high')) (hhigh : IsDouble (high - low')) :
    Within (low - high') (high - low') (x - y) :=
  (rounds_sub hx.finite hy.finite).within hlow hhigh (sub_le_sub hx.low_le hy.le_high)
    (sub_le_sub hx.le_high hy.low_le)

theorem Within.mul (hx : Within (-high) high x) (hy : Within (-high') high' y)
    (hbound : IsDouble (high * high')) :
    Within (-(high * high')) (high * high') (x * y) := by
  have hproduct : |value x * value y| ≤ high * high' := by
    rw [abs_mul]
    exact mul_le_mul (abs_le.mpr ⟨hx.low_le, hx.le_high⟩) (abs_le.mpr ⟨hy.low_le, hy.le_high⟩)
      (abs_nonneg _) ((abs_nonneg _).trans (abs_le.mpr ⟨hx.low_le, hx.le_high⟩))
  obtain ⟨hlow, hhigh⟩ := abs_le.mp hproduct
  exact (rounds_mul hx.finite hy.finite).within hbound.neg hbound hlow hhigh

/-- A division by one or more does not lead out of a range that has zero in it. -/
theorem Within.div (hx : Within low high x) (hy : y.isFinite) (hone : 1 ≤ value y)
    (hlow : IsDouble low) (hhigh : IsDouble high) (hneg : low ≤ 0) (hpos : 0 ≤ high) :
    Within low high (x / y) := by
  have hdivisor : 0 < value y := zero_lt_one.trans_le hone
  refine (rounds_div hx.finite hy hdivisor.ne').within hlow hhigh ?_ ?_
  · rw [le_div_iff₀ hdivisor]
    exact (mul_le_of_one_le_right hneg hone).trans hx.low_le
  · rw [div_le_iff₀ hdivisor]
    exact hx.le_high.trans (le_mul_of_one_le_right hpos hone)

/-- A division by an infinite double gives zero. -/
theorem within_div_of_isInf (hx : x.isFinite) (hy : y.isInf) : Within 0 0 (x / y) := by
  change y.toModel.unpack.isInf = true at hy
  have hround : Rounds 0 (x / y) := by
    change Rounds 0 (.ofModel (.pack (UnpackedFloat.div .binary64 x.toModel.unpack
      y.toModel.unpack)))
    cases hunpack : y.toModel.unpack with
    | infinity sign =>
      rcases isFinite_iff.mp hx with ⟨_, hunpack'⟩ | ⟨_, _, _, _, hunpack'⟩ <;> rw [hunpack'] <;>
        exact rounds_zero _
    | notANumber => rw [hunpack] at hy; cases hy
    | zero sign => rw [hunpack] at hy; cases hy
    | finite sign mantissa exponent hpos => rw [hunpack] at hy; cases hy
  exact hround.within isDouble_zero isDouble_zero le_rfl le_rfl

/-- The root of a number between two squares is between their roots. -/
theorem Within.sqrt (hx : Within (low ^ 2) (high ^ 2) x) (hlow : IsDouble low)
    (hhigh : IsDouble high) (hnonneg : 0 ≤ low) (hle : low ≤ high) : Within low high x.sqrt := by
  obtain ⟨root, hround, hsides⟩ := exists_root hx.finite ((sq_nonneg low).trans hx.low_le)
  have hlowSide := hsides (hlow.isHalfway hnonneg)
  have hhighSide := hsides (hhigh.isHalfway (hnonneg.trans hle))
  exact hround.within hlow hhigh (hlowSide.le_root_iff.mpr hx.low_le)
    (hhighSide.root_le_iff.mpr hx.le_high)

end Within

end SpiralMachine.Number
