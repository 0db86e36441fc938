import SpiralMachine.Proofs.Mesh.Resonance
import SpiralMachine.Proofs.Number.Precision

/-!
# The magnitude is a size

Whatever finite components a vector has, its magnitude is a number or infinite, is zero for the
zero vector only, and is at least 0.78 of the largest component (`magnitude_faithful`).

The least weight of a component is the inverse golden ratio, whose root is more than 25/32. If a
component is so large that no product of its term is subnormal, its term is more than the
square of 25/32 of it, whatever is lost in rounding (`weighs_mul`), and the sum of the terms is no
less than any of them (`le_weightedSquare`). So the root of a normal sum is at least 0.78 of the
largest component, which is either as large as that or, after multiplication, below the root of
every normal number (`atLeast_sqrt`). Other sums are taken for components of which the largest is
one, and more than 0.78 of the largest component is rounded to no less than 0.78 of it is
(`atLeast_rescaled`).
-/

set_option autoImplicit false

namespace SpiralMachine

open Number

namespace SpiralVector

variable {v : SpiralVector}

/-! ### Products and sums that are finite -/

section Arithmetic

variable {x y : Float}

/-- What two doubles have a product of whose factors point the same way: it is not negative, and
is not much less than the exact product if that is normal. -/
theorem le_value_mul (h : (x * y).isFinite) (hnonneg : 0 ≤ value x * value y) :
    0 ≤ value (x * y) ∧ (2 ^ (-1022 : ℤ) ≤ value x * value y →
      (1 - 1 / 2 ^ 52) * (value x * value y) ≤ value (x * y)) := by
  obtain ⟨hx, hy⟩ := isFinite_of_mul h
  obtain ⟨hnearest, hlimit⟩ := (rounds_mul hx hy).nearest_of_isFinite h
  have hvalue := hnearest.le_value isDouble_zero hnonneg
  refine ⟨hvalue, fun hnormal ↦ ?_⟩
  rw [← abs_of_nonneg hnonneg] at hnormal
  have hloss := hnearest.le_abs_value hnormal (hlimit.trans_lt overflowLimit_lt)
  rwa [abs_of_nonneg hnonneg, abs_of_nonneg hvalue] at hloss

/-- A sum of doubles that are not negative is no less than either. -/
theorem le_value_add (h : (x + y).isFinite) (hx : 0 ≤ value x) (hy : 0 ≤ value y) :
    value x ≤ value (x + y) ∧ value y ≤ value (x + y) := by
  obtain ⟨hxfinite, hyfinite⟩ := isFinite_of_add h
  obtain ⟨hnearest, -⟩ := (rounds_add hxfinite hyfinite).nearest_of_isFinite h
  exact ⟨hnearest.le_value (isDouble_value hxfinite) (le_add_of_nonneg_right hy),
    hnearest.le_value (isDouble_value hyfinite) (le_add_of_nonneg_left hx)⟩

/-- The root of a double is no less than a double whose square is no more. -/
theorem le_value_sqrt {bound : ℚ} (hx : x.isFinite) (hbound : IsDouble bound) (hnonneg : 0 ≤ bound)
    (hle : bound ^ 2 ≤ value x) : x.sqrt.isFinite ∧ bound ≤ value x.sqrt := by
  have hlimit : value x ≤ (2 ^ 512) ^ 2 := by
    have hlt := (le_abs_self (value x)).trans ((isDouble_value hx).abs_lt.le.trans
      overflowLimit_lt.le)
    rwa [← pow_mul, ← zpow_natCast]
  have hhigh : bound ≤ 2 ^ 512 :=
    le_of_sq_le_sq (hle.trans hlimit) (by positivity)
  have hroot := Within.sqrt ⟨hx, hle, hlimit⟩ hbound (isDouble_two_pow (by norm_num)) hnonneg hhigh
  exact ⟨hroot.finite, hroot.low_le⟩

end Arithmetic

/-! ### The terms of the weighted square -/

/-- From this size of a component on, no product of its term is subnormal. -/
def plainSize : ℚ := 32 / 25 * 2 ^ (-511 : ℤ)

theorem normal_eq_square : (2 : ℚ) ^ (-1022 : ℤ) = (2 ^ (-511 : ℤ)) ^ 2 := by
  rw [← zpow_natCast, ← zpow_mul]
  rfl

/-- The term of a component is not negative, and if the component is large enough the term is
more than the square of 25/32 of it. -/
structure Weighs (x term : Float) : Prop where
  nonneg : 0 ≤ value term
  le : plainSize ≤ |value x| → (25 / 32 * value x) ^ 2 ≤ value term

section Terms

variable {x y factor : Float}

/-- A component times something that points its way and is not much less than 0.618 of it. -/
theorem weighs_of_product (h : (y * x).isFinite) (hnonneg : 0 ≤ value y * value x)
    (hsize : plainSize ≤ |value x| → 617 / 1000 * |value x| ≤ |value y|) : Weighs x (y * x) := by
  obtain ⟨hvalue, hloss⟩ := le_value_mul h hnonneg
  refine ⟨hvalue, fun hlarge ↦ ?_⟩
  have hproduct : 617 / 1000 * |value x| * |value x| ≤ value y * value x := by
    rw [← abs_of_nonneg hnonneg, abs_mul]
    exact mul_le_mul_of_nonneg_right (hsize hlarge) (abs_nonneg _)
  have hsquare : plainSize ^ 2 ≤ |value x| * |value x| := by
    rw [← sq]
    exact pow_le_pow_left₀ (mul_pos (by norm_num) (by positivity)).le hlarge 2
  have hnormal : (2 : ℚ) ^ (-1022 : ℤ) ≤ value y * value x := by
    have hunit : (0 : ℚ) < (2 ^ (-511 : ℤ)) ^ 2 := by positivity
    rw [plainSize, mul_pow] at hsquare
    rw [normal_eq_square]
    linarith
  have hterm := hloss hnormal
  rw [mul_pow, ← sq_abs (value x), sq |value x|]
  linarith [mul_self_nonneg |value x|]

theorem weighs_square (h : (x * x).isFinite) : Weighs x (x * x) :=
  weighs_of_product h (mul_self_nonneg _) fun _ ↦ by linarith [abs_nonneg (value x)]

theorem weighs_mul (hfactor : 309 / 500 ≤ value factor) (h : (factor * x * x).isFinite) :
    Weighs x (factor * x * x) := by
  obtain ⟨hfirst, hx⟩ := isFinite_of_mul h
  obtain ⟨hfinite, -⟩ := isFinite_of_mul hfirst
  obtain ⟨hnearest, hlimit⟩ := (rounds_mul hfinite hx).nearest_of_isFinite hfirst
  have hpos : 0 < value factor := lt_of_lt_of_le (by norm_num) hfactor
  refine weighs_of_product h ?_ fun hlarge ↦ ?_
  · rcases le_total 0 (value x) with hnonneg | hnonpos
    · exact mul_nonneg (hnearest.le_value isDouble_zero (mul_nonneg hpos.le hnonneg)) hnonneg
    · exact mul_nonneg_of_nonpos_of_nonpos
        (hnearest.value_le isDouble_zero (mul_nonpos_of_nonneg_of_nonpos hpos.le hnonpos)) hnonpos
  · have hproduct : 309 / 500 * |value x| ≤ |value factor * value x| := by
      rw [abs_mul, abs_of_pos hpos]
      exact mul_le_mul_of_nonneg_right hfactor (abs_nonneg _)
    have hnormal : (2 : ℚ) ^ (-1022 : ℤ) ≤ |value factor * value x| := by
      have hunit : (2 : ℚ) ^ (-1022 : ℤ) ≤ 2 ^ (-512 : ℤ) :=
        zpow_le_zpow_right₀ one_le_two (by norm_num)
      have hhalf : (2 : ℚ) ^ (-511 : ℤ) = 2 ^ (-512 : ℤ) * 2 := zpow_add_one₀ two_ne_zero (-512)
      rw [plainSize, hhalf] at hlarge
      have hpositive : (0 : ℚ) < 2 ^ (-512 : ℤ) := by positivity
      linarith
    have hloss := hnearest.le_abs_value hnormal (hlimit.trans_lt overflowLimit_lt)
    linarith [abs_nonneg (value x)]

end Terms

/-- A finite weighted square is no less than any of its terms. -/
theorem le_weightedSquare (h : v.weightedSquare.isFinite) : 0 ≤ value v.weightedSquare ∧
    ∀ x ∈ v.toList, plainSize ≤ |value x| → (25 / 32 * value x) ^ 2 ≤ value v.weightedSquare := by
  obtain ⟨hthree, hspin⟩ := isFinite_of_add h
  obtain ⟨htwo, hstate⟩ := isFinite_of_add hthree
  obtain ⟨hpace, hrate⟩ := isFinite_of_add htwo
  have hpace := weighs_square hpace
  have hrate := weighs_mul (show 309 / 500 ≤ value golden by decide +kernel) hrate
  have hstate := weighs_mul (show 309 / 500 ≤ value (golden * golden) by decide +kernel) hstate
  have hspin := weighs_mul (show 309 / 500 ≤ value goldenInverse by decide +kernel) hspin
  obtain ⟨hpaceTwo, hrateTwo⟩ := le_value_add htwo hpace.nonneg hrate.nonneg
  have htwoNonneg := hpace.nonneg.trans hpaceTwo
  obtain ⟨htwoThree, hstateThree⟩ := le_value_add hthree htwoNonneg hstate.nonneg
  have hthreeNonneg := htwoNonneg.trans htwoThree
  obtain ⟨hthreeAll, hspinAll⟩ := le_value_add h hthreeNonneg hspin.nonneg
  refine ⟨hthreeNonneg.trans hthreeAll, forall_mem_toList.mpr ⟨?_, ?_, ?_, ?_⟩⟩
  · exact fun hlarge ↦ (hpace.le hlarge).trans (hpaceTwo.trans (htwoThree.trans hthreeAll))
  · exact fun hlarge ↦ (hrate.le hlarge).trans (hrateTwo.trans (htwoThree.trans hthreeAll))
  · exact fun hlarge ↦ (hstate.le hlarge).trans (hstateThree.trans hthreeAll)
  · exact fun hlarge ↦ (hspin.le hlarge).trans hspinAll

/-! ### The part of the largest component -/

section Part

variable {largest : Float}

theorem part_bounds :
    (0.78 : Float).isFinite ∧ 3 / 4 < value 0.78 ∧ value 0.78 ≤ 7801 / 10000 := by
  decide +kernel

/-- 0.78 of a double is rounded to the nearest double. -/
theorem nearest_part (h : largest.isFinite) :
    Nearest (value largest * value 0.78) (largest * 0.78) := by
  obtain ⟨hfinite, hlow, hhigh⟩ := part_bounds
  have hweight : Within 0 1 (0.78 : Float) := ⟨hfinite, by linarith, by linarith⟩
  exact hweight.nearest_mul h

/-- 0.78 of a positive double is more than half of the least positive double. -/
theorem part_pos (h : largest.isFinite) (hpos : 0 < value largest) :
    0 < value (largest * 0.78) := by
  obtain ⟨-, hlow, -⟩ := part_bounds
  have hleast : (0 : ℚ) < 2 ^ (-1074 : ℤ) := by positivity
  have hle := (isDouble_value h).least_le hpos
  have hhalf : ((0 : ℕ) + 1 / 2) * 2 ^ (-1074 : ℤ) < value largest * value 0.78 := by
    have hproduct := mul_le_mul hle hlow.le (by norm_num) hpos.le
    rw [Nat.cast_zero]
    linarith
  have hvalue := (nearest_part h).le_value_of_half_lt canonical_zero (by norm_num) hhalf
  rw [Nat.cast_zero, zero_add, one_mul] at hvalue
  exact hleast.trans_le hvalue

end Part

/-! ### The two ways to the magnitude -/

/-- The root of a normal weighted square is at least 0.78 of the largest component. -/
theorem atLeast_sqrt (h : v.isFinite) (hsquare : v.weightedSquare.isFinite)
    (hnormal : 2 ^ (-1022 : ℤ) ≤ value v.weightedSquare) :
    AtLeast (value (v.maxAbs * 0.78)) v.weightedSquare.sqrt := by
  obtain ⟨hfinite, hle, hreached⟩ := maxAbs_spec h
  obtain ⟨-, hterms⟩ := le_weightedSquare hsquare
  obtain ⟨-, hlow, hhigh⟩ := part_bounds
  have hnonneg : 0 ≤ value v.maxAbs := (abs_nonneg _).trans (hle _ List.mem_cons_self)
  have hnearest := nearest_part hfinite
  have hunit : (0 : ℚ) < 2 ^ (-511 : ℤ) := by positivity
  -- a double between 0.78 of the largest component and the root is enough
  suffices hbetween : ∃ double, IsDouble double ∧ value v.maxAbs * value 0.78 ≤ double ∧
      0 ≤ double ∧ double ^ 2 ≤ value v.weightedSquare by
    obtain ⟨double, hdouble, hpart, hnonneg, hroot⟩ := hbetween
    obtain ⟨hsqrt, hbound⟩ := le_value_sqrt hsquare hdouble hnonneg hroot
    exact .finite hsqrt ((hnearest.value_le hdouble hpart).trans hbound)
  rcases le_or_gt plainSize (value v.maxAbs) with hlarge | hsmall
  · have hpositive : 0 < plainSize := mul_pos (by norm_num) hunit
    obtain ⟨x, hx, heq⟩ := hreached.resolve_left (hpositive.trans_le hlarge).ne'
    have hterm := hterms x hx (hlarge.trans_eq heq.symm)
    rw [mul_pow, ← sq_abs (value x), heq, ← mul_pow] at hterm
    have hlimit := (isDouble_value hfinite).abs_lt.trans overflowLimit_lt
    rw [abs_of_nonneg hnonneg] at hlimit
    have hnormal : (2 : ℚ) ^ (-1022 : ℤ) ≤ 25 / 32 * value v.maxAbs := by
      have hless : (2 : ℚ) ^ (-1022 : ℤ) ≤ 2 ^ (-511 : ℤ) :=
        zpow_le_zpow_right₀ one_le_two (by norm_num)
      unfold plainSize at hlarge
      linarith
    obtain ⟨double, hdouble, hloss, hbelow⟩ := exists_isDouble_le hnormal
      ((mul_le_of_le_one_left hnonneg (by norm_num)).trans_lt hlimit)
    have hpart : value v.maxAbs * value 0.78 ≤ value v.maxAbs * (7801 / 10000) :=
      mul_le_mul_of_nonneg_left hhigh hnonneg
    have hdoubleNonneg : 0 ≤ double := by linarith
    exact ⟨double, hdouble, by linarith, hdoubleNonneg,
      (pow_le_pow_left₀ hdoubleNonneg hbelow 2).trans hterm⟩
  · have hroot : IsDouble (2 ^ (-511 : ℤ)) := by
      have hpair : Canonical (2 ^ 52) (-563) := ⟨by norm_num, by norm_num, .inl le_rfl⟩
      convert hpair.isDouble (by norm_num) using 1
      rw [Nat.cast_pow, Nat.cast_ofNat, ← zpow_natCast, ← zpow_add₀ two_ne_zero]
      rfl
    refine ⟨_, hroot, ?_, hunit.le, normal_eq_square.ge.trans hnormal⟩
    have hpart : value v.maxAbs * value 0.78 ≤ plainSize * (7801 / 10000) :=
      mul_le_mul hsmall.le hhigh (by linarith) (mul_pos (by norm_num) hunit).le
    unfold plainSize at hpart
    linarith

/-- The sum of doubles of bounded sizes. -/
theorem within_add_sizes {a b : ℚ} {x y : Float} (hx : Within (-a) a x) (hy : Within (-b) b y)
    (hbound : IsDouble (a + b)) : Within (-(a + b)) (a + b) (x + y) := by
  have hsum := hx.add hy (by rw [← neg_add]; exact hbound.neg) hbound
  rwa [← neg_add] at hsum

/-- The weighted square of components in `[-1, 1]` is finite. -/
theorem UnitMax.isFinite_weightedSquare (h : v.UnitMax) : v.weightedSquare.isFinite := by
  obtain ⟨hpace, hrate, hstate, hspin⟩ := forall_mem_toList.mp h.within
  have hsmall (number : ℕ) (hlt : number < 2 ^ 53) : IsDouble number := isDouble_natCast number hlt
  have hone := hpace.mul hpace (by exact_mod_cast hsmall 1 (by norm_num))
  have htwo := (within_golden.mul hrate (by exact_mod_cast hsmall 2 (by norm_num))).mul hrate
    (by exact_mod_cast hsmall 2 (by norm_num))
  have hfour := ((within_golden.mul within_golden (by exact_mod_cast hsmall 4 (by norm_num))).mul
    hstate (by exact_mod_cast hsmall 4 (by norm_num))).mul hstate
    (by exact_mod_cast hsmall 4 (by norm_num))
  have hless := (within_goldenInverse.mul hspin (by exact_mod_cast hsmall 1 (by norm_num))).mul
    hspin (by exact_mod_cast hsmall 1 (by norm_num))
  have hall := within_add_sizes (within_add_sizes (within_add_sizes hone htwo
    (by exact_mod_cast hsmall 3 (by norm_num))) hfour
    (by exact_mod_cast hsmall 7 (by norm_num))) hless (by exact_mod_cast hsmall 8 (by norm_num))
  exact hall.finite

/-- The root of the weighted square of components of which the largest is one is at least 25/32. -/
theorem UnitMax.le_sqrt (h : v.UnitMax) :
    v.weightedSquare.sqrt.isFinite ∧ 25 / 32 ≤ value v.weightedSquare.sqrt := by
  have hsquare := h.isFinite_weightedSquare
  obtain ⟨x, hx, hone⟩ := h.full
  have hlarge : plainSize ≤ |value x| := by
    have hhalf : (2 : ℚ) ^ (-511 : ℤ) ≤ 1 / 2 :=
      (zpow_le_zpow_right₀ one_le_two (by norm_num : (-511 : ℤ) ≤ -1)).trans_eq (by norm_num)
    rw [hone, plainSize]
    linarith
  have hterm := (le_weightedSquare hsquare).2 x hx hlarge
  rw [mul_pow, ← sq_abs (value x), hone, one_pow, mul_one] at hterm
  have hroot : IsDouble (25 / 32) := by
    have hdouble : IsDouble ((25 : ℤ) * 2 ^ (-5 : ℤ)) :=
      isDouble_grid (by norm_num) (by norm_num) (by norm_num)
    convert hdouble using 1
    norm_num
  exact le_value_sqrt hsquare hroot (by norm_num) hterm

/-- The largest component times the root for the rescaled components is at least 0.78 of it. -/
theorem atLeast_rescaled (h : v.isFinite) (hpos : 0 < value v.maxAbs) :
    AtLeast (value (v.maxAbs * 0.78))
      (v.maxAbs * (v.map (· / v.maxAbs)).weightedSquare.sqrt) := by
  obtain ⟨hfinite, -⟩ := maxAbs_spec h
  obtain ⟨hsqrt, hroot⟩ := (unitMax_div_maxAbs h hpos.ne').le_sqrt
  obtain ⟨-, -, hhigh⟩ := part_bounds
  have hless : value (0.78 : Float) < value (v.map (· / v.maxAbs)).weightedSquare.sqrt :=
    hhigh.trans_lt (lt_of_lt_of_le (by norm_num) hroot)
  refine (rounds_mul hfinite hsqrt).atLeast_of_lt (nearest_part hfinite)
    (mul_lt_mul_of_pos_left hless hpos) (mul_pos hpos ?_)
  linarith

/-! ### The zero vector -/

/-- Zero times a finite double is zero. -/
theorem within_zero_mul {x y : Float} (hx : x.isFinite) (hy : Within 0 0 y) :
    Within 0 0 (x * y) := by
  have hvalue : value x * value y = 0 := by
    rw [le_antisymm hy.le_high hy.low_le, mul_zero]
  exact (rounds_mul hx hy.finite).within isDouble_zero isDouble_zero hvalue.ge hvalue.le

theorem within_zero_add {x y : Float} (hx : Within 0 0 x) (hy : Within 0 0 y) :
    Within 0 0 (x + y) := by
  have hsum := hx.add hy (by rw [add_zero]; exact isDouble_zero)
    (by rw [add_zero]; exact isDouble_zero)
  rwa [add_zero] at hsum

theorem within_zero_weightedSquare (h : ∀ x ∈ v.toList, Within 0 0 x) :
    Within 0 0 v.weightedSquare := by
  obtain ⟨hpace, hrate, hstate, hspin⟩ := forall_mem_toList.mp h
  obtain ⟨hgolden, hproduct, hinverse⟩ : golden.isFinite ∧ (golden * golden).isFinite ∧
      goldenInverse.isFinite := by decide +kernel
  have hterm {factor x : Float} (hfactor : factor.isFinite) (hx : Within 0 0 x) :
      Within 0 0 (factor * x * x) :=
    within_zero_mul (within_zero_mul hfactor hx).finite hx
  exact within_zero_add (within_zero_add (within_zero_add (within_zero_mul hpace.finite hpace)
    (hterm hgolden hrate)) (hterm hproduct hstate)) (hterm hinverse hspin)

/-! ### The magnitude -/

theorem isZero_iff : v.isZero ↔ ∀ x ∈ v.toList, x == 0.0 :=
  List.all_eq_true

/-- A normal number is at least `2 ^ (-1022)`. -/
theorem isNormal_spec {x : Float} (h : isNormal x) :
    x.isFinite ∧ 2 ^ (-1022 : ℤ) ≤ |value x| := by
  obtain ⟨hleast, hvalue⟩ : (2.2250738585072014e-308 : Float).isFinite ∧
      value 2.2250738585072014e-308 = 2 ^ (-1022 : ℤ) := by decide +kernel
  rw [isNormal, Bool.and_eq_true, decide_eq_true_eq] at h
  obtain ⟨hfinite, hle⟩ := h
  obtain ⟨habs, hsize⟩ := abs_spec hfinite
  rw [ge_iff_le, le_iff hleast habs, hvalue, hsize] at hle
  exact ⟨hfinite, hle⟩

/-- The largest component of a vector that is not zero is positive. -/
theorem maxAbs_pos (h : v.isFinite) (hzero : ¬v.isZero) : 0 < value v.maxAbs := by
  obtain ⟨-, hle, -⟩ := maxAbs_spec h
  by_contra hnonpos
  refine hzero (isZero_iff.mpr fun x hx ↦ (beq_zero_iff (isFinite_iff.mp h x hx)).mpr ?_)
  exact abs_nonpos_iff.mp ((hle x hx).trans (not_lt.mp hnonpos))

/-- The magnitude of a vector that is not zero is at least 0.78 of its largest component. -/
theorem atLeast_magnitude (h : v.isFinite) (hzero : ¬v.isZero) :
    AtLeast (value (v.maxAbs * 0.78)) v.magnitude := by
  unfold magnitude
  dsimp only
  split
  · rename_i hdirect
    rw [Bool.or_eq_true, Bool.or_eq_true, Bool.not_eq_true', h, or_iff_left (by simp),
      or_iff_left hzero] at hdirect
    obtain ⟨hsquare, hnormal⟩ := isNormal_spec hdirect
    rw [abs_of_nonneg (le_weightedSquare hsquare).1] at hnormal
    exact atLeast_sqrt h hsquare hnormal
  · exact atLeast_rescaled h (maxAbs_pos h hzero)

/-- The magnitude of the zero vector is zero, and so is 0.78 of its largest component. -/
theorem magnitude_of_isZero (h : v.isFinite) (hzero : v.isZero) :
    Within 0 0 v.magnitude ∧ Within 0 0 (v.maxAbs * 0.78) := by
  have hvalue (x : Float) (hx : x ∈ v.toList) : value x = 0 :=
    (beq_zero_iff (isFinite_iff.mp h x hx)).mp (isZero_iff.mp hzero x hx)
  constructor
  · have hsquare := within_zero_weightedSquare fun x hx ↦
      ⟨isFinite_iff.mp h x hx, (hvalue x hx).ge, (hvalue x hx).le⟩
    have hroot : Within 0 0 v.weightedSquare.sqrt :=
      Within.sqrt (by rwa [zero_pow two_ne_zero]) isDouble_zero isDouble_zero le_rfl le_rfl
    unfold magnitude
    dsimp only
    rwa [hzero, Bool.or_true, Bool.true_or, if_pos rfl]
  · obtain ⟨hfinite, -, hreached⟩ := maxAbs_spec h
    have hmost : value v.maxAbs = 0 := by
      rcases hreached with hmost | ⟨x, hx, heq⟩
      · exact hmost
      · rw [← heq, hvalue x hx, abs_zero]
    have hnearest := nearest_part hfinite
    rw [hmost, zero_mul] at hnearest
    exact ⟨hnearest.finite, hnearest.le_value isDouble_zero le_rfl,
      hnearest.value_le isDouble_zero le_rfl⟩

/-- At every scale the magnitude of a vector of finite components is a size of it: a number or
the positive infinity, zero for the zero vector only, and at least 0.78 of the largest component as
a double. -/
theorem magnitude_faithful (h : v.isFinite) :
    v.magnitude.isNaN = false ∧ 0.0 ≤ v.magnitude ∧
      (v.magnitude == 0.0 ↔ ∀ x ∈ v.toList, x == 0.0) ∧ v.maxAbs * 0.78 ≤ v.magnitude := by
  obtain ⟨hzeroFinite, hzeroValue⟩ := value_zero
  rw [← isZero_iff]
  by_cases hzero : v.isZero
  · obtain ⟨hmagnitude, hpart⟩ := magnitude_of_isZero h hzero
    have hvalue : value v.magnitude = 0 := le_antisymm hmagnitude.le_high hmagnitude.low_le
    refine ⟨isNaN_of_isFinite hmagnitude.finite, ?_, ?_, ?_⟩
    · rw [le_iff hzeroFinite hmagnitude.finite, hzeroValue, hvalue]
    · exact iff_of_true ((beq_zero_iff hmagnitude.finite).mpr hvalue) hzero
    · rw [le_iff hpart.finite hmagnitude.finite, hvalue]
      exact hpart.le_high
  · have hfinite := (maxAbs_spec h).1
    have hpos := part_pos hfinite (maxAbs_pos h hzero)
    have hmagnitude := atLeast_magnitude h hzero
    refine ⟨hmagnitude.isNaN, ?_, ?_, hmagnitude.le (nearest_part hfinite).finite⟩
    · exact (hmagnitude.mono (hzeroValue.trans_le hpos.le)).le hzeroFinite
    · exact iff_of_false (hmagnitude.ne_zero hpos) hzero

/-- The least positive double, whose square is lost, and four of the largest doubles, whose
magnitude is infinite. -/
theorem magnitude_at_extremes :
    let least : SpiralVector := ⟨0.0, 5e-324, 0.0, 0.0⟩
    let most : SpiralVector :=
      ⟨1.7976931348623157e308, -1.7976931348623157e308, 1.7976931348623157e308, 0.0⟩
    least.isFinite ∧ least.weightedSquare == 0.0 ∧ ¬least.magnitude == 0.0 ∧
      least.maxAbs * 0.78 ≤ least.magnitude ∧
      most.isFinite ∧ most.magnitude.isInf ∧ 0.0 ≤ most.magnitude ∧
      most.maxAbs * 0.78 ≤ most.magnitude := by
  intro least most
  have hleast : least.isFinite := by decide +kernel
  have hmost : most.isFinite := by decide +kernel
  obtain ⟨-, -, hzero, hlow⟩ := magnitude_faithful hleast
  obtain ⟨-, hnonneg, -, hhigh⟩ := magnitude_faithful hmost
  refine ⟨hleast, by decide +kernel, ?_, hlow, hmost, by decide +kernel, hnonneg, hhigh⟩
  rw [hzero]
  decide +kernel

end SpiralVector

end SpiralMachine
