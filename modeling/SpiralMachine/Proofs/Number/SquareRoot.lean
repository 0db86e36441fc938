import SpiralMachine.Proofs.Number.Nearest

/-!
# Square roots of doubles

The root of a double need not be a rational number, but the rounding knows it by a mantissa and
two more bits only, and there is a rational number with the same ones. It is on the same side of
every double and of every number half way between two doubles as the root is (`exists_root`), so
that bounds of a number give bounds of its root, and the rounding of the root is decided by squares.
The square of a double is rounded by less than what would bring its root half way to another
double, so that the rounded root of it is the double again (`sqrt_mul_self`).
-/

set_option autoImplicit false

namespace SpiralMachine.Number

open Float.Model Float.Model.UnpackedFloat

/-- A number is on the same side of a bound as the root of a square is. -/
structure RootSide (square root bound : ℚ) : Prop where
  le_root_iff : bound ≤ root ↔ bound ^ 2 ≤ square
  root_le_iff : root ≤ bound ↔ square ≤ bound ^ 2

/-- A number between two neighbouring halves, with the root strictly between them, is on the same
side of all halves as the root is. -/
theorem rootSide_of_between {square : ℕ} {root : ℚ} (count : ℕ) (hlow : count ^ 2 < 4 * square)
    (hhigh : 4 * square < (count + 1) ^ 2) (habove : (count : ℚ) / 2 < root)
    (hbelow : root < (count + 1) / 2) (halves : ℕ) : RootSide square root (halves / 2) := by
  have hsquare : ((halves : ℚ) / 2) ^ 2 * 4 = (halves ^ 2 : ℕ) := by
    push_cast
    ring
  rcases le_or_gt halves count with hle | hgt
  · have hroot : (halves : ℚ) / 2 < root := by
      have : (halves : ℚ) ≤ count := by exact_mod_cast hle
      linarith
    have hless : (halves ^ 2 : ℕ) < (4 * square : ℚ) := by
      exact_mod_cast (Nat.pow_le_pow_left hle 2).trans_lt hlow
    constructor <;> constructor <;> intro _ <;> linarith
  · have hroot : root < (halves : ℚ) / 2 := by
      have : (count : ℚ) + 1 ≤ halves := by exact_mod_cast hgt
      linarith
    have hmore : (4 * square : ℚ) < (halves ^ 2 : ℕ) := by
      exact_mod_cast hhigh.trans_le (Nat.pow_le_pow_left hgt 2)
    constructor <;> constructor <;> intro _ <;> linarith

/-- What the rounding knows of a root, it knows of some rational number that is on the same side of
all halves. -/
theorem exists_represents_sqrt (square : ℕ) :
    ∃ root : ℚ, Represents (.ofMantissaAndAccuracy square.sqrt
        (if square - square.sqrt * square.sqrt = 0 then .exact
        else .inexact (if square - square.sqrt * square.sqrt ≤ square.sqrt then .lt else .gt)))
        root ∧
      ∀ halves : ℕ, RootSide square root (halves / 2) := by
  have hlow := Nat.sqrt_le' square
  have hhigh : square < (square.sqrt + 1) ^ 2 := Nat.lt_succ_sqrt' square
  rw [sq] at hlow
  generalize square.sqrt = whole at *
  split
  · rename_i hrest
    refine ⟨whole, represents_exact _, fun halves ↦ ?_⟩
    have hexact : (square : ℚ) = whole ^ 2 := by
      rw [sq]
      exact_mod_cast show square = whole * whole by omega
    have hnonneg : (0 : ℚ) ≤ halves / 2 := by positivity
    rw [hexact]
    exact ⟨(pow_le_pow_iff_left₀ hnonneg (Nat.cast_nonneg _) two_ne_zero).symm,
      (pow_le_pow_iff_left₀ (Nat.cast_nonneg _) hnonneg two_ne_zero).symm⟩
  · rename_i hrest
    have heven : (2 * whole) ^ 2 = 4 * (whole * whole) := by ring
    have hodd : (2 * whole + 1) ^ 2 = 4 * (whole * whole) + 4 * whole + 1 := by ring
    have hnext : (2 * whole + 1 + 1) ^ 2 = 4 * (whole + 1) ^ 2 := by ring
    split
    · -- the root is in the lower half of its unit
      refine ⟨whole + 1 / 4, ⟨?_, ?_⟩, rootSide_of_between (2 * whole) ?_ ?_ ?_ ?_⟩
      · show (whole : ℚ) < whole + 1 / 4
        linarith
      · show (whole : ℚ) + 1 / 4 < whole + 1 / 2
        linarith
      · omega
      · omega
      · push_cast
        linarith
      · push_cast
        linarith
    · refine ⟨whole + 3 / 4, ⟨?_, ?_⟩, rootSide_of_between (2 * whole + 1) ?_ ?_ ?_ ?_⟩
      · show (whole : ℚ) + 1 / 2 < whole + 3 / 4
        linarith
      · show (whole : ℚ) + 3 / 4 < whole + 1
        linarith
      · omega
      · omega
      · push_cast
        linarith
      · push_cast
        linarith

/-! ### Doubles and the numbers half way between them -/

/-- A size that is that of a double or half way between two of them, if no exponent is too
large. -/
def IsHalfway (bound : ℚ) : Prop :=
  ∃ (halves : ℕ) (exponent : ℤ), halves < 2 ^ 54 ∧ -1074 ≤ exponent ∧
    bound = halves / 2 * 2 ^ exponent

theorem IsHalfway.nonneg {bound : ℚ} (h : IsHalfway bound) : 0 ≤ bound := by
  obtain ⟨halves, exponent, -, -, rfl⟩ := h
  positivity

theorem Canonical.isHalfway {mantissa : ℕ} {exponent : ℤ} (h : Canonical mantissa exponent) :
    IsHalfway (mantissa * 2 ^ exponent) := by
  have hlt := h.lt
  refine ⟨2 * mantissa, exponent, by omega, h.le_exponent, ?_⟩
  push_cast
  rw [mul_div_cancel_left₀ _ two_ne_zero]

/-- The number half way to the next double. -/
theorem Canonical.isHalfway_next {mantissa : ℕ} {exponent : ℤ} (h : Canonical mantissa exponent) :
    IsHalfway ((mantissa + 1 / 2) * 2 ^ exponent) := by
  have hlt := h.lt
  refine ⟨2 * mantissa + 1, exponent, by omega, h.le_exponent, ?_⟩
  push_cast
  ring

theorem IsDouble.isHalfway {bound : ℚ} (h : IsDouble bound) (hnonneg : 0 ≤ bound) :
    IsHalfway bound := by
  obtain ⟨mantissa, exponent, hpair, -, hsize⟩ := isDouble_iff.mp h
  rw [abs_of_nonneg hnonneg] at hsize
  exact hsize ▸ hpair.isHalfway

/-- A number on the same side of all halves as a root is, taken to a grid, is on the same side of
all doubles and numbers half way between them. Those off the grid are less than the root, if that
has all its bits. -/
theorem rootSide_of_halves {square : ℕ} {root : ℚ}
    (h : ∀ halves : ℕ, RootSide square root (halves / 2)) {target : ℤ}
    (hfull : target ≤ -1074 ∨ (2 ^ 52) ^ 2 ≤ square) {bound : ℚ} (hbound : IsHalfway bound) :
    RootSide (square * ((2 : ℚ) ^ target) ^ 2) (root * 2 ^ target) bound := by
  have hunit : (0 : ℚ) < 2 ^ target := by positivity
  obtain ⟨halves, exponent, hlt, hleast, rfl⟩ := hbound
  rcases le_or_gt target exponent with hle | hless
  · -- on the grid, the bound is a number of halves
    obtain ⟨places, rfl⟩ : ∃ places : ℕ, exponent = places + target :=
      ⟨(exponent - target).toNat, by omega⟩
    have hgrid : (halves : ℚ) / 2 * 2 ^ (places + target) =
        (halves * 2 ^ places : ℕ) / 2 * 2 ^ target := by
      rw [two_zpow_add]
      push_cast
      ring
    have hside := h (halves * 2 ^ places)
    rw [hgrid]
    constructor
    · rw [mul_pow, mul_le_mul_iff_left₀ hunit, mul_le_mul_iff_left₀ (by positivity)]
      exact hside.le_root_iff
    · rw [mul_pow, mul_le_mul_iff_left₀ hunit, mul_le_mul_iff_left₀ (by positivity)]
      exact hside.root_le_iff
  · have hfull := hfull.resolve_left (by omega)
    have hpower : (2 : ℚ) ^ 52 ≤ root := by
      have hside := (h (2 ^ 53)).le_root_iff
      norm_num at hside ⊢
      exact hside.mpr (by exact_mod_cast hfull)
    have hsmall : (halves : ℚ) / 2 * 2 ^ exponent < 2 ^ 52 * 2 ^ target := by
      have hhalves : (halves : ℚ) < 2 ^ 54 := by exact_mod_cast hlt
      calc (halves : ℚ) / 2 * 2 ^ exponent < 2 ^ 52 * 2 ^ (exponent + 1) := by
            rw [zpow_add_one₀ two_ne_zero, mul_comm _ (2 : ℚ), ← mul_assoc]
            exact mul_lt_mul_of_pos_right (by linarith) (by positivity)
        _ ≤ 2 ^ 52 * 2 ^ target :=
            mul_le_mul_of_nonneg_left (zpow_le_zpow_right₀ one_le_two hless) (by positivity)
    have hroot := hsmall.trans_le (mul_le_mul_of_nonneg_right hpower hunit.le)
    have hsquare : (halves / 2 * 2 ^ exponent) ^ 2 < square * ((2 : ℚ) ^ target) ^ 2 := by
      refine (pow_lt_pow_left₀ hsmall (by positivity) two_ne_zero).trans_le ?_
      rw [mul_pow]
      exact mul_le_mul_of_nonneg_right (by exact_mod_cast hfull) (by positivity)
    exact ⟨iff_of_true hroot.le hsquare.le, iff_of_false hroot.not_ge hsquare.not_ge⟩

/-- What is known of a root before it is rounded: a mantissa with all its bits, and a rational
number in its place, which is on the same side of all doubles and numbers half way between them. -/
theorem exists_represents_sqrtCore {mantissa : ℕ} (hpos : 0 < mantissa) (exponent : ℤ) :
    let (start, scale, accuracy) := sqrtCore .binary64 mantissa exponent
    ∃ root : ℚ, Represents (.ofMantissaAndAccuracy start accuracy) (root / 2 ^ scale) ∧
      (52 ≤ start.log2 ∨ scale ≤ -1074) ∧
      ∀ {bound}, IsHalfway bound → RootSide (mantissa * 2 ^ exponent) root bound := by
  unfold sqrtCore
  dsimp only
  generalize htarget : min (exponent.ediv 2) (Format.binary64.targetExponent
    ((totalExponent mantissa exponent + 1).ediv 2)) = target
  generalize hshift : (exponent - 2 * target).toNat = shift
  have hreach : (shift : ℤ) + 2 * target = exponent := by
    have : target ≤ exponent / 2 := htarget ▸ min_le_left _ _
    omega
  have hunit : (0 : ℚ) < 2 ^ target := by positivity
  have hsquare : (mantissa : ℚ) * 2 ^ exponent =
      (mantissa <<< shift : ℕ) * ((2 : ℚ) ^ target) ^ 2 := by
    rw [Nat.shiftLeft_eq, ← hreach, zpow_add₀ two_ne_zero, mul_comm 2 target, zpow_mul,
      zpow_natCast]
    push_cast
    exact (mul_assoc _ _ _).symm
  -- unless its exponent is the smallest, the square has enough bits for its root to have all
  have hfull : target ≤ -1074 ∨ (2 ^ 52) ^ 2 ≤ mantissa <<< shift := by
    by_cases hleast : target ≤ -1074
    · exact .inl hleast
    · have hwide : 104 ≤ mantissa.log2 + shift := by
        change min (exponent / 2) (max (((mantissa.log2 : ℤ) + 1 + exponent + 1) / 2 -
          ((1 + 52 : ℕ) : ℤ)) (3 - 2 ^ 10 - ((1 + 52 : ℕ) : ℤ))) = target at htarget
        omega
      rw [Nat.shiftLeft_eq]
      refine .inr ?_
      calc (2 ^ 52) ^ 2 = 2 ^ 104 := (Nat.pow_mul 2 52 2).symm
        _ ≤ 2 ^ (mantissa.log2 + shift) := Nat.pow_le_pow_right two_pos hwide
        _ = 2 ^ mantissa.log2 * 2 ^ shift := Nat.pow_add ..
        _ ≤ mantissa * 2 ^ shift := Nat.mul_le_mul_right _ (Nat.log2_self_le hpos.ne')
  have hbits : 52 ≤ (mantissa <<< shift).sqrt.log2 ∨ target ≤ -1074 := by
    refine hfull.symm.imp_left fun hfull ↦ ?_
    have hroot := Nat.le_sqrt'.mpr hfull
    exact (Nat.le_log2 (by omega)).mpr hroot
  obtain ⟨root, hroot, hsides⟩ := exists_represents_sqrt (mantissa <<< shift)
  refine ⟨root * 2 ^ target, ?_, hbits, fun {bound} hbound ↦ ?_⟩
  · rwa [mul_div_assoc, div_self hunit.ne', mul_one]
  · rw [hsquare]
    exact rootSide_of_halves hsides hfull hbound

/-- The root of a double is rounded from a number that is on the same side of every double, and of
every number half way between two doubles, as the root is. -/
theorem exists_root {x : Float} (hx : x.isFinite) (hnonneg : 0 ≤ value x) :
    ∃ root : ℚ, Rounds root x.sqrt ∧
      ∀ {bound}, IsHalfway bound → RootSide (value x) root bound := by
  change ∃ root : ℚ, Rounds root (.ofModel (.pack (UnpackedFloat.sqrt .binary64
    x.toModel.unpack))) ∧ _
  rcases hnonneg.eq_or_lt with hzero | hpos
  · obtain ⟨sign, hunpack⟩ := exists_unpack_zero hx hzero.symm
    rw [hunpack, ← hzero]
    refine ⟨0, rounds_zero sign, fun {bound} hbound ↦ ?_⟩
    have hsquare : bound ^ 2 ≤ 0 ↔ bound ≤ 0 := by
      rw [(sq_nonneg bound).ge_iff_eq', hbound.nonneg.ge_iff_eq', sq_eq_zero_iff]
    exact ⟨hsquare.symm, iff_of_true hbound.nonneg (sq_nonneg bound)⟩
  · have hsign : signOf (value x) = .positive := if_neg hpos.not_gt
    obtain ⟨mantissa, exponent, hdouble, hunpack, hsize⟩ := exists_unpack hx hpos.ne'
    rw [abs_of_pos hpos] at hsize
    rw [hunpack, hsign, hsize]
    obtain ⟨root, hroot, hbits, hsides⟩ := exists_represents_sqrtCore hdouble.pos exponent
    have hround := rounds_roundWithAccuracy .positive hroot hbits
    rw [signValue, one_mul] at hround
    exact ⟨root, hround, hsides⟩

/-! ### The root of a square -/

section Square

variable {exponent : ℤ} {y : Float}

theorem zpow_unit_square (exponent : ℤ) :
    (2 : ℚ) ^ (53 + 2 * exponent) = 2 ^ 53 * (2 ^ exponent) ^ 2 := by
  rw [zpow_add₀ two_ne_zero, mul_comm 2 exponent, zpow_mul]
  rfl

/-- The square of a power of two is a double. -/
theorem sqrt_of_rounds_power (h : Rounds ((2 ^ 52 * 2 ^ exponent) ^ 2) y)
    (hleast : -563 ≤ exponent) (hmax : exponent ≤ 458) :
    y.sqrt.isFinite ∧ value y.sqrt = 2 ^ 52 * 2 ^ exponent := by
  have hpair : Canonical (2 ^ 52) exponent := ⟨by norm_num, by omega, .inl le_rfl⟩
  have hsquare : IsDouble ((2 ^ 52 * 2 ^ exponent) ^ 2) := by
    have hgrid : IsDouble ((2 ^ 51 : ℤ) * 2 ^ (53 + 2 * exponent)) :=
      isDouble_grid (by norm_num) (by omega) (by omega)
    rw [zpow_unit_square] at hgrid
    convert hgrid using 1
    push_cast
    ring
  obtain ⟨hfinite, hvalue⟩ := h.exact hsquare
  obtain ⟨root, hround, hsides⟩ := exists_root hfinite (by rw [hvalue]; positivity)
  have hside := hsides hpair.isHalfway
  have hdouble := hpair.isDouble (by omega)
  push_cast at hside hdouble
  have hroot : root = 2 ^ 52 * 2 ^ exponent :=
    le_antisymm (hside.root_le_iff.mpr hvalue.le) (hside.le_root_iff.mpr hvalue.ge)
  exact (hroot ▸ hround).exact hdouble

/-- Any other square is rounded by less than what is missing to the squares of the numbers half way
to the doubles before and after. -/
theorem sqrt_of_rounds_square {before : ℕ} (hpair : Canonical (before + 1) exponent)
    (hfull : 2 ^ 52 ≤ before) (h : Rounds (((before + 1) * 2 ^ exponent) ^ 2) y)
    (hleast : -563 ≤ exponent) (hmax : exponent ≤ 458) :
    y.sqrt.isFinite ∧ value y.sqrt = (before + 1) * 2 ^ exponent := by
  have hunit : (0 : ℚ) < 2 ^ exponent := by positivity
  have hsquare : (0 : ℚ) < (2 ^ exponent) ^ 2 := by positivity
  have hbefore : Canonical before exponent :=
    ⟨by have := hpair.lt; omega, hpair.le_exponent, .inl hfull⟩
  have hsmall : |(((before : ℚ) + 1) * 2 ^ exponent) ^ 2| ≤ 2 ^ 53 * 2 ^ (53 + 2 * exponent) := by
    have hle : ((before : ℚ) + 1) * 2 ^ exponent ≤ 2 ^ 53 * 2 ^ exponent :=
      mul_le_mul_of_nonneg_right (by exact_mod_cast hpair.lt.le) hunit.le
    rw [abs_of_nonneg (by positivity), zpow_unit_square]
    linarith [pow_le_pow_left₀ (by positivity) hle 2]
  obtain ⟨hfinite, herror⟩ := h.abs_sub_le hsmall (by omega) (by omega)
  rw [zpow_unit_square] at herror
  obtain ⟨hlow, hhigh⟩ := abs_le.mp herror
  have hmissing : 2 ^ 52 * (2 ^ exponent) ^ 2 ≤ before * ((2 : ℚ) ^ exponent) ^ 2 :=
    mul_le_mul_of_nonneg_right (by exact_mod_cast hfull) hsquare.le
  have hbelow : (((before : ℚ) + 1 / 2) * 2 ^ exponent) ^ 2 < value y := by linarith
  have habove : value y < (((before : ℚ) + 1 + 1 / 2) * 2 ^ exponent) ^ 2 := by linarith
  obtain ⟨root, hround, hsides⟩ := exists_root hfinite ((sq_nonneg _).trans hbelow.le)
  have hlowSide := hsides hbefore.isHalfway_next
  have hhighSide := hsides hpair.isHalfway_next
  push_cast at hhighSide
  refine hround.eq_of_between hbefore hpair (by omega) ?_ ?_
  · exact not_le.mp fun hle ↦ (hlowSide.root_le_iff.mp hle).not_gt hbelow
  · exact not_le.mp fun hle ↦ (hhighSide.le_root_iff.mp hle).not_gt habove

/-- The root of the square of a double is the double, unless the square is very small or very
large. -/
theorem sqrt_mul_self {x : Float} (hx : x.isFinite) (hlow : 2 ^ (-511 : ℤ) ≤ value x)
    (hhigh : value x < 2 ^ (511 : ℤ)) : (x * x).sqrt = x := by
  have hpos : 0 < value x := lt_of_lt_of_le (by positivity) hlow
  obtain ⟨mantissa, exponent, hpair, -, hsize⟩ := exists_canonical hx
  rw [abs_of_pos hpos] at hsize
  have hunit : (0 : ℚ) < 2 ^ exponent := by positivity
  have hleast : -511 < 53 + exponent := by
    refine lt_of_power_le hlow ?_
    rw [hsize, zpow_add₀ two_ne_zero]
    exact mul_lt_mul_of_pos_right (by exact_mod_cast hpair.lt) hunit
  have hfull : 2 ^ 52 ≤ mantissa := hpair.normal.resolve_right (by omega)
  have hmost : 52 + exponent < 511 := by
    refine lt_of_power_le (le_trans ?_ hsize.ge) hhigh
    rw [zpow_add₀ two_ne_zero]
    exact mul_le_mul_of_nonneg_right (by exact_mod_cast hfull) hunit.le
  have hround := rounds_mul hx hx
  rw [← sq, hsize] at hround
  suffices h : (x * x).sqrt.isFinite ∧ value (x * x).sqrt = mantissa * 2 ^ exponent from
    eq_of_value_eq h.1 hx (by rw [h.2, ← hsize]; exact hpos.ne') (h.2.trans hsize.symm)
  rcases hfull.eq_or_lt with rfl | hmore
  · push_cast at hround ⊢
    exact sqrt_of_rounds_power hround (by omega) (by omega)
  · obtain ⟨before, rfl⟩ : ∃ before, mantissa = before + 1 := ⟨mantissa - 1, by omega⟩
    push_cast at hround ⊢
    exact sqrt_of_rounds_square hpair (by omega) hround (by omega) (by omega)

end Square

end SpiralMachine.Number
