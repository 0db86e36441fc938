import Mathlib.Tactic.Ring
import SpiralMachine.Proofs.Number.Digits
import SpiralMachine.Proofs.Number.Rounding

/-!
# The shortest digits read back

`roundsTo_shortest` says that the digits written for a double are a number of its interval.
The search takes the first grid that has a point in it (`roundsTo_of_holds`). If none of
the grids up to sixteen digits has one, the nearest point with seventeen is taken, and that
is near enough (`roundsTo_nearest`), since the power of ten of the first digit is not too
large (`pow_leadingPower_le`).
-/

set_option autoImplicit false

namespace SpiralMachine.Number

open Text (digitsValue)

variable {mantissa : ℕ} {exponent : ℤ}

/-! ### The interval over one denominator -/

/-- A whole number of units, over one denominator. -/
theorem cast_scaled (point : ℕ) (power : ℤ) :
    ((point * 10 ^ power.toNat : ℕ) : ℚ) / (10 ^ (-power).toNat : ℕ) = point * 10 ^ power := by
  rcases le_total 0 power with hle | hle
  · obtain ⟨size, rfl⟩ := Int.eq_ofNat_of_zero_le hle
    have hnone : (-(size : ℤ)).toNat = 0 := by omega
    rw [hnone, Int.toNat_natCast, zpow_natCast]
    simp
  · obtain ⟨size, rfl⟩ : ∃ size : ℕ, power = -size := ⟨(-power).toNat, by omega⟩
    have hnone : (-(size : ℤ)).toNat = 0 := by omega
    rw [hnone, neg_neg, Int.toNat_natCast, zpow_neg, zpow_natCast]
    simp [div_eq_mul_inv]

/-- The fraction of a neighbourhood is the double, and its ends are those of the interval. -/
theorem cast_neighbourhood (hpos : 0 < mantissa) (exponent : ℤ) :
    let around := neighbourhood mantissa exponent
    0 < (around.bottom : ℚ) ∧
      (around.low : ℚ) = (mantissa - lowerGap mantissa exponent) * 2 ^ exponent * around.bottom ∧
      (around.middle : ℚ) = mantissa * 2 ^ exponent * around.bottom ∧
      (around.high : ℚ) = (mantissa + 1 / 2) * 2 ^ exponent * around.bottom := by
  have hgrow : ((2 ^ (exponent - 2).toNat : ℕ) : ℚ) =
      2 ^ exponent / 4 * (2 ^ (2 - exponent).toNat : ℕ) := by
    have hquarter : (2 : ℚ) ^ exponent / 4 = 2 ^ (exponent - 2) := by
      rw [zpow_sub₀ two_ne_zero]
      norm_num
    rw [hquarter]
    push_cast
    rw [← zpow_natCast, ← zpow_natCast, ← zpow_add₀ two_ne_zero]
    congr 1
    omega
  have hfour : (1 : ℚ) ≤ mantissa := by exact_mod_cast hpos
  unfold neighbourhood lowerGap
  simp only [Nat.pow_eq]
  refine ⟨by positivity, ?_, ?_, ?_⟩
  · rw [Nat.cast_mul, hgrow, Nat.cast_sub (by split <;> omega)]
    split
    · push_cast
      ring
    · push_cast
      ring
  · rw [Nat.cast_mul, hgrow]
    push_cast
    ring
  · rw [Nat.cast_mul, hgrow]
    push_cast
    ring

/-- A fraction beside a whole number over another denominator. -/
theorem scaled_lt_iff (point : ℕ) {scale whole bottom : ℕ} {x : ℚ} (hscale : 0 < (scale : ℚ))
    (hbottom : 0 < (bottom : ℚ)) (hwhole : (whole : ℚ) = x * bottom) :
    (whole * scale < point * bottom ↔ x < point / scale) ∧
      (point * bottom < whole * scale ↔ point / scale < x) := by
  constructor
  · rw [lt_div_iff₀ hscale, ← mul_lt_mul_iff_left₀ hbottom, ← Nat.cast_lt (α := ℚ)]
    push_cast
    rw [hwhole, mul_right_comm]
  · rw [div_lt_iff₀ hscale, ← mul_lt_mul_iff_left₀ hbottom, ← Nat.cast_lt (α := ℚ)]
    push_cast
    rw [hwhole, mul_right_comm]

/-- A fraction that a neighbourhood holds is in the interval of its double. -/
theorem roundsTo_of_holds (hpos : 0 < mantissa) {point scale : ℕ} (hscale : 0 < scale)
    (h : (neighbourhood mantissa exponent).holds point scale) :
    RoundsTo mantissa exponent (point / scale) := by
  obtain ⟨hbottom, hlow, -, hhigh⟩ := cast_neighbourhood hpos exponent
  have hscale : (0 : ℚ) < scale := by exact_mod_cast hscale
  obtain ⟨hlower, hlower'⟩ := scaled_lt_iff point hscale hbottom hlow
  obtain ⟨hupper, hupper'⟩ := scaled_lt_iff point hscale hbottom hhigh
  have hclosed : (neighbourhood mantissa exponent).closed = decide (mantissa % 2 = 0) := rfl
  unfold Neighbourhood.holds at h
  rw [hclosed] at h
  by_cases heven : mantissa % 2 = 0
  · rw [decide_eq_true heven, if_pos rfl, Bool.and_eq_true, decide_eq_true_iff,
      decide_eq_true_iff, ← not_lt, ← not_lt, hlower', hupper, not_lt, not_lt] at h
    exact ⟨h.1, h.2, fun hodd ↦ absurd hodd (by omega)⟩
  · rw [decide_eq_false heven, if_neg Bool.false_ne_true, Bool.and_eq_true, decide_eq_true_iff,
      decide_eq_true_iff, hlower, hupper'] at h
    exact ⟨h.1.le, h.2.le, fun _ ↦ h⟩

/-! ### The nearest point of a grid -/

/-- A quotient is rounded to one of the two whole numbers beside it. -/
theorem roundedQuotient_eq (tie : Tie) (value unit : ℕ) :
    roundedQuotient tie value unit = value / unit ∨
      roundedQuotient tie value unit = value / unit + 1 := by
  unfold roundedQuotient
  dsimp only
  split
  · exact .inl rfl
  · exact .inr rfl
  · cases tie with
    | even =>
      dsimp only
      split
      · exact .inl rfl
      · exact .inr rfl
    | up => exact .inr rfl

/-- A rounded quotient is half a unit away at most. -/
theorem abs_roundedQuotient_sub_le (tie : Tie) (value unit : ℕ) (hunit : 0 < unit) :
    |(roundedQuotient tie value unit : ℚ) - value / unit| ≤ 1 / 2 := by
  have hparts : ((unit * (value / unit) + value % unit : ℕ) : ℚ) = value :=
    congrArg Nat.cast (Nat.div_add_mod value unit)
  have hcast : (0 : ℚ) < unit := by exact_mod_cast hunit
  push_cast at hparts
  have hfraction : (value : ℚ) / unit = (value / unit : ℕ) + (value % unit : ℕ) / unit := by
    rw [← hparts]
    field_simp
  have hrest : (0 : ℚ) ≤ (value % unit : ℕ) / unit := by positivity
  have hlt : ((value % unit : ℕ) : ℚ) / unit < 1 := by
    rw [div_lt_one hcast]
    exact_mod_cast Nat.mod_lt value hunit
  have hdown : 2 * (value % unit) ≤ unit → ((value % unit : ℕ) : ℚ) / unit ≤ 1 / 2 := by
    intro hle
    rw [div_le_div_iff₀ hcast two_pos]
    exact_mod_cast (by omega : value % unit * 2 ≤ 1 * unit)
  have hup : unit ≤ 2 * (value % unit) → 1 / 2 ≤ ((value % unit : ℕ) : ℚ) / unit := by
    intro hle
    rw [div_le_div_iff₀ two_pos hcast]
    exact_mod_cast (by omega : 1 * unit ≤ value % unit * 2)
  rw [hfraction, abs_le]
  unfold roundedQuotient
  dsimp only
  split
  · rename_i hcompare
    have := hdown (Nat.compare_eq_lt.mp hcompare).le
    constructor <;> linarith
  · rename_i hcompare
    have := hup (Nat.compare_eq_gt.mp hcompare).le
    push_cast
    constructor <;> linarith
  · rename_i hcompare
    have hle := hdown (Nat.compare_eq_eq.mp hcompare).le
    have hge := hup (Nat.compare_eq_eq.mp hcompare).ge
    cases tie with
    | even =>
      dsimp only
      split
      · constructor <;> linarith
      · push_cast
        constructor <;> linarith
    | up =>
      push_cast
      constructor <;> linarith

/-- The power of ten of the first digit is no larger than the fraction. -/
theorem pow_leadingPower_le {top bottom : ℕ} (htop : 0 < top) (hbottom : 0 < bottom) :
    (10 : ℚ) ^ leadingPower top bottom ≤ top / bottom := by
  have hcast : (0 : ℚ) < bottom := by exact_mod_cast hbottom
  rw [le_div_iff₀ hcast]
  unfold leadingPower
  split
  · rename_i hle
    have hlength : 0 < (decimal (top / bottom)).length :=
      List.length_pos_iff.mpr (decimal_ne_nil _)
    have hdigits := pow_length_decimal_le (Nat.div_pos hle hbottom)
    have hwhole := (Nat.le_div_iff_mul_le hbottom).mp hdigits
    have hpower : ((decimal (top / bottom)).length : ℤ) - 1 =
        ((decimal (top / bottom)).length - 1 : ℕ) := by omega
    rw [hpower, zpow_natCast]
    exact_mod_cast hwhole
  · rename_i hlt
    have hlength : 0 < (decimal (bottom / top)).length :=
      List.length_pos_iff.mpr (decimal_ne_nil _)
    have hbound : ∀ {size : ℕ}, bottom ≤ top * 10 ^ size →
        (10 : ℚ) ^ (-(size : ℤ)) * bottom ≤ top := by
      intro size hsize
      rw [zpow_neg, zpow_natCast, inv_mul_le_iff₀ (by positivity), mul_comm]
      exact_mod_cast hsize
    dsimp only
    split
    · rename_i hfits
      have hpower : 1 - ((decimal (bottom / top)).length : ℤ) =
          -(((decimal (bottom / top)).length - 1 : ℕ) : ℤ) := by omega
      rw [hpower]
      exact hbound hfits
    · refine hbound ?_
      have hdigits := lt_pow_length_decimal (bottom / top)
      rw [Nat.div_lt_iff_lt_mul htop, mul_comm] at hdigits
      exact hdigits.le

/-- The nearest point on a grid of seventeen digits is in the interval. -/
theorem roundsTo_nearest (hdouble : Representable mantissa exponent) {lead : ℤ}
    (hlead : (10 : ℚ) ^ lead ≤ mantissa * 2 ^ exponent) {point : ℕ}
    (hnear : |(point : ℚ) - mantissa * 2 ^ exponent / 10 ^ (lead - 16)| ≤ 1 / 2) :
    RoundsTo mantissa exponent (point * 10 ^ (lead - 16)) := by
  have hunit : (0 : ℚ) < 2 ^ exponent := by positivity
  have hstep : (0 : ℚ) < 10 ^ (lead - 16) := by positivity
  have hsteps : (10 : ℚ) ^ (lead - 16) * 10 ^ 16 = 10 ^ lead := by
    rw [zpow_sub₀ (by norm_num)]
    norm_num
  have hmantissa : (mantissa : ℚ) + 1 ≤ 2 ^ 53 := by exact_mod_cast hdouble.lt
  obtain ⟨hlow, hhigh⟩ := abs_le.mp hnear
  have hlow : (mantissa : ℚ) * 2 ^ exponent - 1 / 2 * 10 ^ (lead - 16) ≤
      point * 10 ^ (lead - 16) := by
    have := mul_le_mul_of_nonneg_right hlow hstep.le
    rw [sub_mul, div_mul_cancel₀ _ hstep.ne'] at this
    linarith
  have hhigh : (point : ℚ) * 10 ^ (lead - 16) ≤
      mantissa * 2 ^ exponent + 1 / 2 * 10 ^ (lead - 16) := by
    have := mul_le_mul_of_nonneg_right hhigh hstep.le
    rw [sub_mul, div_mul_cancel₀ _ hstep.ne'] at this
    linarith
  -- sixteen digits after the first make a step shorter than the gap on either side
  have hgap : 1 / 2 * (10 : ℚ) ^ (lead - 16) < lowerGap mantissa exponent * 2 ^ exponent := by
    unfold lowerGap
    split
    · rename_i hpower
      rw [hpower.1] at hlead
      push_cast at hlead
      linarith
    · have := mul_le_mul_of_nonneg_right hmantissa hunit.le
      linarith
  have hhalf := mul_le_mul_of_nonneg_right (lowerGap_le mantissa exponent) hunit.le
  have hbelow : (mantissa - lowerGap mantissa exponent) * 2 ^ exponent <
      (point : ℚ) * 10 ^ (lead - 16) := by linarith
  have habove : (point : ℚ) * 10 ^ (lead - 16) < (mantissa + 1 / 2) * 2 ^ exponent := by linarith
  exact ⟨hbelow.le, habove.le, fun _ ↦ ⟨hbelow, habove⟩⟩

/-! ### The search -/

/-- A point that is found on a grid is in the interval. -/
theorem roundsTo_of_point? (hpos : 0 < mantissa) {tie : Tie} {power : ℤ} {point : ℕ}
    (h : (neighbourhood mantissa exponent).point? tie power = some point) :
    RoundsTo mantissa exponent (point * 10 ^ power) := by
  have hholds : (neighbourhood mantissa exponent).holds (point * 10 ^ power.toNat)
      (10 ^ (-power).toNat) := by
    unfold Neighbourhood.point? at h
    dsimp only at h
    split at h <;> rename_i hbelow habove
    · rw [Bool.and_eq_true] at hbelow
      cases h
      rcases roundedQuotient_eq tie _ _ with heq | heq <;> rw [heq]
      · exact hbelow.2
      · exact habove
    · rw [Bool.and_eq_true] at hbelow
      cases h
      exact hbelow.2
    · cases h
      exact habove
    · cases h
  have hround := roundsTo_of_holds hpos (by positivity) hholds
  rwa [cast_scaled] at hround

/-- The point that the search ends with is in the interval. -/
theorem roundsTo_firstPoint (hdouble : Representable mantissa exponent) (tie : Tie) {lead : ℤ}
    (hlead : (10 : ℚ) ^ lead ≤ mantissa * 2 ^ exponent) (grids count : ℕ)
    (hcount : grids + count = 17) :
    let found := (neighbourhood mantissa exponent).firstPoint tie lead grids count
    RoundsTo mantissa exponent (found.1 * 10 ^ found.2) := by
  induction grids generalizing count with
  | zero =>
    obtain ⟨hbottom, -, hmiddle, -⟩ := cast_neighbourhood hdouble.pos exponent
    obtain rfl : count = 17 := by omega
    have hpower : lead + 1 - (17 : ℕ) = lead - 16 := by omega
    have hnear := abs_roundedQuotient_sub_le tie
      ((neighbourhood mantissa exponent).middle * 10 ^ (-(lead - 16)).toNat)
      ((neighbourhood mantissa exponent).bottom * 10 ^ (lead - 16).toNat)
      (Nat.mul_pos (by exact_mod_cast hbottom) (by positivity))
    simp only [Neighbourhood.firstPoint, Nat.pow_eq]
    rw [hpower]
    refine roundsTo_nearest hdouble hlead ?_
    convert hnear using 2
    have hten := cast_scaled 1 (lead - 16)
    rw [Nat.cast_one, one_mul, one_mul] at hten
    rw [← hten, Nat.cast_mul, Nat.cast_mul, hmiddle]
    push_cast
    field_simp
  | succ grids ih =>
    rw [Neighbourhood.firstPoint]
    split
    · rename_i point hpoint
      exact roundsTo_of_point? hdouble.pos hpoint
    · exact ih (count + 1) (by omega)

/-- The number that digits stand for. -/
def Digits.value (number : Digits) : ℚ :=
  digitsValue 10 number.digits * 10 ^ (number.lead + 1 - number.digits.length)

/-- The digits written for a double are a number of its interval. -/
theorem roundsTo_shortest (hdouble : Representable mantissa exponent) (tie : Tie) :
    Significant (shortest tie mantissa exponent).digits ∧
      RoundsTo mantissa exponent (shortest tie mantissa exponent).value := by
  have hunit : (0 : ℚ) < 2 ^ exponent := by positivity
  obtain ⟨hbottom, -, hmiddle, -⟩ := cast_neighbourhood hdouble.pos exponent
  have htop : (0 : ℚ) < (neighbourhood mantissa exponent).middle := by
    have := hdouble.pos
    rw [hmiddle]
    positivity
  have hlead := pow_leadingPower_le (Nat.cast_pos.mp htop) (Nat.cast_pos.mp hbottom)
  rw [hmiddle, mul_div_cancel_right₀ _ hbottom.ne'] at hlead
  have hround := roundsTo_firstPoint hdouble tie hlead 16 1 rfl
  unfold shortest
  dsimp only at hround ⊢
  generalize (neighbourhood mantissa exponent).firstPoint tie _ 16 1 = found at hround ⊢
  obtain ⟨point, power⟩ := found
  have hpos : 0 < point := by
    have hrange := (hround.range hdouble).1
    refine Nat.pos_of_ne_zero fun hzero ↦ ?_
    rw [hzero, Nat.cast_zero, zero_mul] at hrange
    exact absurd hrange (not_le.mpr (by positivity))
  obtain ⟨count, hcount⟩ := dropTrailingZeros_append (decimal point)
  refine ⟨significant_dropTrailingZeros (significant_decimal hpos), ?_⟩
  convert hround using 1
  have hlength := congrArg List.length hcount
  have hvalue := digitsValue_decimal point
  rw [hcount, digitsValue_append, digitsValue_zeros, Nat.add_zero] at hvalue
  rw [List.length_append] at hlength
  simp only [zeros, List.length_replicate] at hlength hvalue
  have hlast : power + (decimal point).length - 1 + 1 -
      (dropTrailingZeros (decimal point)).length = count + power := by omega
  unfold Digits.value
  dsimp only
  rw [hlast, zpow_add₀ (by norm_num), zpow_natCast, ← mul_assoc]
  congr 1
  exact_mod_cast hvalue

end SpiralMachine.Number
