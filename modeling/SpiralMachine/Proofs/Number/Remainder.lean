import Mathlib.Data.Rat.Floor
import SpiralMachine.Number.Remainder
import SpiralMachine.Proofs.Number.Precision

/-!
# Remainders are exact

`residue` is what is left of a number, in `[0, modulus)`, when whole multiples of the modulus are
taken away. A remainder of two doubles has the size of the residue of their sizes
(`value_remainder`). Nothing is rounded: at a common exponent both are whole numbers of one unit, one
of them with the mantissa it had, and what is left is no greater than either.

The least residue is the remainder, moved up by the modulus if it is negative. Only that sum is
rounded, so that the least residue is the double nearest to the residue (`nearest_leastResidue`), and
the residue itself for numbers that are not negative (`value_leastResidue`). Of a residue that is not
zero there is no other nearest double (`nearest_residue_iff`).
-/

set_option autoImplicit false

namespace SpiralMachine.Number

open Float.Model Float.Model.UnpackedFloat

/-! ### Residues of numbers -/

/-- What is left of a number, in `[0, modulus)`, when whole multiples of the modulus are taken
away. -/
def residue (number modulus : ℚ) : ℚ := number - ⌊number / modulus⌋ * modulus

section Residue

variable {number modulus left : ℚ}

theorem residue_nonneg (number : ℚ) (hpos : 0 < modulus) : 0 ≤ residue number modulus :=
  Int.sub_floor_div_mul_nonneg number hpos

theorem residue_lt (number : ℚ) (hpos : 0 < modulus) : residue number modulus < modulus :=
  Int.sub_floor_div_mul_lt number hpos

/-- There is one number in `[0, modulus)` that differs by whole multiples of the modulus. -/
theorem residue_eq_of_add (count : ℤ) (hnonneg : 0 ≤ left) (hlt : left < modulus)
    (h : number = left + count * modulus) : residue number modulus = left := by
  have hpos : 0 < modulus := hnonneg.trans_lt hlt
  have hcount : ⌊number / modulus⌋ = count := by
    rw [Int.floor_eq_iff, le_div_iff₀ hpos, div_lt_iff₀ hpos]
    constructor <;> linarith
  rw [residue, hcount, h, add_sub_cancel_right]

theorem residue_of_lt (hnonneg : 0 ≤ number) (hlt : number < modulus) :
    residue number modulus = number :=
  residue_eq_of_add 0 hnonneg hlt (by simp)

/-- The residue of a number of the other sign, unless there is nothing left. -/
theorem residue_neg (hpos : 0 < modulus) (hne : residue number modulus ≠ 0) :
    residue (-number) modulus = modulus - residue number modulus := by
  have hleft : 0 < residue number modulus := (residue_nonneg number hpos).lt_of_ne' hne
  have hlt := residue_lt number hpos
  refine residue_eq_of_add (-⌊number / modulus⌋ - 1) (by linarith) (by linarith) ?_
  unfold residue
  push_cast
  ring

theorem residue_neg_of_eq_zero (hpos : 0 < modulus) (hzero : residue number modulus = 0) :
    residue (-number) modulus = 0 := by
  refine residue_eq_of_add (-⌊number / modulus⌋) le_rfl hpos ?_
  unfold residue at hzero
  push_cast
  linarith

/-- Whole numbers of one unit leave a whole number of it. -/
theorem residue_mul_unit {first second : ℕ} (hpos : 0 < second) {unit : ℚ} (hunit : 0 < unit) :
    residue (first * unit) (second * unit) = (first % second : ℕ) * unit := by
  have hlt : ((first % second : ℕ) : ℚ) < second := by exact_mod_cast Nat.mod_lt first hpos
  have hwhole : (first : ℚ) = (first % second : ℕ) + second * (first / second : ℕ) := by
    exact_mod_cast (Nat.mod_add_div first second).symm
  refine residue_eq_of_add ((first / second : ℕ) : ℤ) (by positivity)
    (mul_lt_mul_of_pos_right hlt hunit) ?_
  rw [hwhole, Int.cast_natCast]
  ring

end Residue

/-! ### Remainders of doubles -/

/-- A mantissa that was shifted to a smaller exponent. -/
theorem shiftLeft_mul_unit (mantissa : ℕ) {exponent common : ℤ} (h : common ≤ exponent) :
    ((mantissa <<< (exponent - common).toNat : ℕ) : ℚ) * 2 ^ common = mantissa * 2 ^ exponent := by
  have hshift := apply_shiftLeft .positive mantissa h
  rwa [cast_apply, signValue, one_mul, one_mul, Int.cast_natCast] at hshift

/-- Of two mantissas that are brought to one exponent, one stays as it is, and what the division
leaves is no greater. -/
theorem left_mantissa_lt {m n : ℕ} {e f : ℤ} (hm : m < 2 ^ 53) (hn : n < 2 ^ 53) (hpos : 0 < n) :
    m <<< (e - min e f).toNat % n <<< (f - min e f).toNat < 2 ^ 53 := by
  rcases le_total e f with hle | hge
  · rw [min_eq_left hle, sub_self, Int.toNat_zero, Nat.shiftLeft_zero]
    exact (Nat.mod_le _ _).trans_lt hm
  · rw [min_eq_right hge, sub_self, Int.toNat_zero, Nat.shiftLeft_zero]
    exact (Nat.mod_lt _ hpos).trans hn

section Remainder

variable {x modulus : Float}

theorem remainder_of_zero (hx : x.isFinite) (hzero : value x = 0) (hmodulus : modulus.isFinite)
    (hpos : 0 < value modulus) : remainder x modulus = x := by
  obtain ⟨_, hunpack₁⟩ := exists_unpack_zero hx hzero
  obtain ⟨_, _, _, hunpack₂, -⟩ := exists_unpack hmodulus hpos.ne'
  unfold remainder
  rw [hunpack₁, hunpack₂]

/-- A remainder is exact: it has the sign of the dividend, and the residue of its size. -/
theorem value_remainder (hx : x.isFinite) (hmodulus : modulus.isFinite)
    (hpos : 0 < value modulus) :
    (remainder x modulus).isFinite ∧ value (remainder x modulus) =
      signValue (signOf (value x)) * residue |value x| (value modulus) := by
  by_cases hzero : value x = 0
  · rw [remainder_of_zero hx hzero hmodulus hpos, hzero, abs_zero, residue_of_lt le_rfl hpos,
      mul_zero]
    exact ⟨hx, rfl⟩
  · obtain ⟨m, e, hdouble₁, hunpack₁, hsize₁⟩ := exists_unpack hx hzero
    obtain ⟨n, f, hdouble₂, hunpack₂, hsize₂⟩ := exists_unpack hmodulus hpos.ne'
    rw [abs_of_pos hpos] at hsize₂
    have hshift₁ := shiftLeft_mul_unit m (min_le_left e f)
    have hshift₂ := shiftLeft_mul_unit n (min_le_right e f)
    have hlt : m <<< (e - min e f).toNat % n <<< (f - min e f).toNat < 2 ^ 53 :=
      left_mantissa_lt hdouble₁.lt hdouble₂.lt hdouble₂.pos
    have hpos₂ : 0 < n <<< (f - min e f).toNat := by
      rw [Nat.shiftLeft_eq]
      exact Nat.mul_pos hdouble₂.pos (by positivity)
    unfold remainder
    rw [hunpack₁, hunpack₂]
    dsimp only
    rw [hsize₁, hsize₂, ← hshift₁, ← hshift₂, residue_mul_unit hpos₂ (by positivity)]
    generalize m <<< (e - min e f).toNat % n <<< (f - min e f).toNat = left at *
    have hround := rounds_normalize ((signOf (value x)).apply left) (min e f) (signOf (value x))
    rw [cast_apply, Int.cast_natCast, mul_assoc] at hround
    refine hround.exact (IsDouble.signed ?_ _)
    obtain ⟨places, hplaces⟩ : ∃ places : ℕ, min e f = places - 1074 :=
      ⟨(min e f + 1074).toNat, by have := hdouble₁.le_exponent; have := hdouble₂.le_exponent; omega⟩
    rw [hplaces]
    exact isDouble_of_lt hlt places (by have := hdouble₁.exponent_le; omega)

/-- What is less than the modulus is left as it is. -/
theorem remainder_of_lt (hx : x.isFinite) (hmodulus : modulus.isFinite)
    (hlt : |value x| < value modulus) : remainder x modulus = x := by
  have hpos : 0 < value modulus := (abs_nonneg _).trans_lt hlt
  by_cases hzero : value x = 0
  · exact remainder_of_zero hx hzero hmodulus hpos
  · obtain ⟨hfinite, hvalue⟩ := value_remainder hx hmodulus hpos
    rw [residue_of_lt (abs_nonneg _) hlt, signValue_signOf] at hvalue
    exact (eq_of_value_eq hx hfinite hzero hvalue.symm).symm

/-- The residue of a size is the value of a double. -/
theorem isDouble_residue (hx : x.isFinite) (hmodulus : modulus.isFinite)
    (hpos : 0 < value modulus) : IsDouble (residue |value x| (value modulus)) := by
  obtain ⟨hfinite, hvalue⟩ := value_remainder hx hmodulus hpos
  obtain ⟨habsFinite, habs⟩ := abs_spec hfinite
  rw [hvalue, abs_mul, abs_signValue, one_mul, abs_of_nonneg (residue_nonneg _ hpos)] at habs
  exact ⟨_, habsFinite, habs⟩

/-! ### Least residues of doubles -/

/-- A remainder that is not negative is the least residue. -/
theorem leastResidue_of_nonneg (hfinite : (remainder x modulus).isFinite)
    (hnonneg : 0 ≤ value (remainder x modulus)) : leastResidue x modulus = remainder x modulus := by
  obtain ⟨hzeroFinite, hzero⟩ := value_zero
  refine if_neg ?_
  rwa [lt_iff hfinite hzeroFinite, hzero, not_lt]

theorem leastResidue_of_neg (hfinite : (remainder x modulus).isFinite)
    (hneg : value (remainder x modulus) < 0) :
    leastResidue x modulus = remainder x modulus + modulus.abs := by
  obtain ⟨hzeroFinite, hzero⟩ := value_zero
  refine if_pos ?_
  rwa [lt_iff hfinite hzeroFinite, hzero]

theorem leastResidue_of_lt (hx : x.isFinite) (hmodulus : modulus.isFinite) (hnonneg : 0 ≤ value x)
    (hlt : value x < value modulus) : leastResidue x modulus = x := by
  have hself := remainder_of_lt hx hmodulus ((abs_of_nonneg hnonneg).trans_lt hlt)
  rw [leastResidue_of_nonneg (hself.symm ▸ hx) (hself.symm ▸ hnonneg), hself]

/-- The least residue of a number that is not negative is exact. -/
theorem value_leastResidue (hx : x.isFinite) (hmodulus : modulus.isFinite)
    (hpos : 0 < value modulus) (hnonneg : 0 ≤ value x) :
    (leastResidue x modulus).isFinite ∧
      value (leastResidue x modulus) = residue (value x) (value modulus) := by
  obtain ⟨hfinite, hvalue⟩ := value_remainder hx hmodulus hpos
  rw [signOf, if_neg hnonneg.not_gt, signValue, one_mul, abs_of_nonneg hnonneg] at hvalue
  rw [leastResidue_of_nonneg hfinite (hvalue ▸ residue_nonneg _ hpos)]
  exact ⟨hfinite, hvalue⟩

theorem nearest_leastResidue_of_neg (hx : x.isFinite) (hmodulus : modulus.isFinite)
    (hpos : 0 < value modulus) (hneg : value x < 0) :
    Nearest (residue (value x) (value modulus)) (leastResidue x modulus) := by
  obtain ⟨hfinite, hvalue⟩ := value_remainder hx hmodulus hpos
  rw [signOf, if_pos hneg, signValue, neg_one_mul, abs_of_neg hneg] at hvalue
  rw [← neg_neg (value x)]
  by_cases hzero : residue (-value x) (value modulus) = 0
  · rw [hzero, neg_zero] at hvalue
    rw [leastResidue_of_nonneg hfinite hvalue.ge, residue_neg_of_eq_zero hpos hzero, ← hvalue]
    exact nearest_value hfinite
  · have hmore := (residue_nonneg (-value x) hpos).lt_of_ne' hzero
    have hless := residue_lt (-value x) hpos
    obtain ⟨habsFinite, habs⟩ := abs_spec hmodulus
    have hround := rounds_add hfinite habsFinite
    rw [hvalue, habs, abs_of_pos hpos, neg_add_eq_sub] at hround
    rw [leastResidue_of_neg hfinite (by linarith), residue_neg hpos hzero]
    refine hround.nearest_of_le (isDouble_value hmodulus) ?_
    rw [abs_of_pos (by linarith), abs_of_pos hpos]
    linarith

/-- The least residue is the double nearest to the residue. -/
theorem nearest_leastResidue (hx : x.isFinite) (hmodulus : modulus.isFinite)
    (hpos : 0 < value modulus) :
    Nearest (residue (value x) (value modulus)) (leastResidue x modulus) := by
  rcases le_or_gt 0 (value x) with hnonneg | hneg
  · obtain ⟨hfinite, hvalue⟩ := value_leastResidue hx hmodulus hpos hnonneg
    rw [← hvalue]
    exact nearest_value hfinite
  · exact nearest_leastResidue_of_neg hx hmodulus hpos hneg

/-- A least residue is between zero and the modulus. -/
theorem within_leastResidue (hx : x.isFinite) (hmodulus : modulus.isFinite)
    (hpos : 0 < value modulus) : Within 0 (value modulus) (leastResidue x modulus) := by
  have hnearest := nearest_leastResidue hx hmodulus hpos
  exact ⟨hnearest.finite, hnearest.le_value isDouble_zero (residue_nonneg _ hpos),
    hnearest.value_le (isDouble_value hmodulus) (residue_lt _ hpos).le⟩

/-- A residue that is not zero is at least the least positive double. -/
theorem least_le_residue (hx : x.isFinite) (hmodulus : modulus.isFinite)
    (hpos : 0 < value modulus) (hne : residue (value x) (value modulus) ≠ 0) :
    2 ^ (-1074 : ℤ) ≤ residue (value x) (value modulus) := by
  have hdouble := isDouble_residue hx hmodulus hpos
  rcases le_or_gt 0 (value x) with hnonneg | hneg
  · rw [abs_of_nonneg hnonneg] at hdouble
    exact hdouble.least_le ((residue_nonneg (value x) hpos).lt_of_ne' hne)
  · rw [abs_of_neg hneg] at hdouble
    rw [← neg_neg (value x)] at hne ⊢
    rw [residue_neg hpos fun hzero ↦ hne (residue_neg_of_eq_zero hpos hzero)]
    exact hdouble.least_le_sub (isDouble_value hmodulus) (residue_nonneg _ hpos)
      (residue_lt _ hpos)

/-- There is one double nearest to a residue that is not zero, which is the least residue. -/
theorem nearest_residue_iff (hx : x.isFinite) (hmodulus : modulus.isFinite)
    (hpos : 0 < value modulus) (hne : residue (value x) (value modulus) ≠ 0) {y : Float} :
    Nearest (residue (value x) (value modulus)) y ↔ y = leastResidue x modulus := by
  have hnearest := nearest_leastResidue hx hmodulus hpos
  constructor
  · intro hother
    have hleast : (0 : ℚ) < 2 ^ (-1074 : ℤ) := by positivity
    have hvalue := hother.le_value isDouble_least (least_le_residue hx hmodulus hpos hne)
    exact eq_of_value_eq hother.finite hnearest.finite (hleast.trans_le hvalue).ne'
      (hother.value_unique hnearest)
  · rintro rfl
    exact hnearest

end Remainder

end SpiralMachine.Number
