import Mathlib.Algebra.Order.Field.Power
import Mathlib.Data.Rat.Cast.Order
import Mathlib.Order.Compare
import Mathlib.Tactic.Linarith
import Mathlib.Tactic.NormNum
import Mathlib.Tactic.Positivity
import SpiralMachine.Proofs.Number.Binary

/-!
# The numbers that doubles stand for

`value` is the number that a finite double stands for. Doubles are compared by their exponents and
then by their mantissas; that is the order of their values (`le_iff`, `lt_iff`), since among
canonical pairs a greater exponent means a greater number (`Canonical.lt_of_exponent_lt`).
`isDouble_iff` tells which numbers are values of finite doubles; whole numbers up to `2 ^ 53`, in
units of a power of two, are among them (`isDouble_grid`).
-/

set_option autoImplicit false

namespace SpiralMachine.Number

open Float.Model Float.Model.UnpackedFloat

/-! ### Canonical pairs -/

/-- A mantissa with all its bits, or with the smallest exponent. These are the pairs of doubles,
with zero and with no largest exponent. -/
structure Canonical (mantissa : ℕ) (exponent : ℤ) : Prop where
  lt : mantissa < 2 ^ 53
  le_exponent : -1074 ≤ exponent
  normal : 2 ^ 52 ≤ mantissa ∨ exponent = -1074

theorem Representable.canonical {mantissa : ℕ} {exponent : ℤ}
    (h : Representable mantissa exponent) : Canonical mantissa exponent :=
  ⟨h.lt, h.le_exponent, h.normal⟩

theorem canonical_zero : Canonical 0 (-1074) := ⟨by norm_num, le_rfl, .inr rfl⟩

section Pairs

variable {m₁ m₂ : ℕ} {e₁ e₂ : ℤ}

/-- A mantissa is less than the power of two that the next exponent starts with. -/
theorem Canonical.lt_power (h : Canonical m₁ e₁) {exponent : ℤ} (hlt : e₁ < exponent) :
    (m₁ : ℚ) * 2 ^ e₁ < 2 ^ 52 * 2 ^ exponent := by
  have hmantissa : (m₁ : ℚ) < 2 ^ 53 := by exact_mod_cast h.lt
  calc (m₁ : ℚ) * 2 ^ e₁ < 2 ^ 53 * 2 ^ e₁ :=
        mul_lt_mul_of_pos_right hmantissa (by positivity)
    _ = 2 ^ 52 * 2 ^ (e₁ + 1) := by
        rw [zpow_add_one₀ two_ne_zero]
        linarith
    _ ≤ 2 ^ 52 * 2 ^ exponent :=
        mul_le_mul_of_nonneg_left (zpow_le_zpow_right₀ one_le_two hlt) (by positivity)

/-- Among canonical pairs a greater exponent means a greater number. -/
theorem Canonical.lt_of_exponent_lt (h₁ : Canonical m₁ e₁) (h₂ : Canonical m₂ e₂) (hlt : e₁ < e₂) :
    (m₁ : ℚ) * 2 ^ e₁ < m₂ * 2 ^ e₂ := by
  have hfull : 2 ^ 52 ≤ m₂ := h₂.normal.resolve_right fun h ↦ by
    have := h₁.le_exponent
    omega
  have hfull : (2 : ℚ) ^ 52 ≤ m₂ := by exact_mod_cast hfull
  exact (h₁.lt_power hlt).trans_le (mul_le_mul_of_nonneg_right hfull (by positivity))

/-- Canonical pairs are compared by their exponents and then by their mantissas. -/
theorem Canonical.compare_eq (h₁ : Canonical m₁ e₁) (h₂ : Canonical m₂ e₂) :
    compare ((m₁ : ℚ) * 2 ^ e₁) (m₂ * 2 ^ e₂) = (compare e₁ e₂).then (compare m₁ m₂) := by
  rcases lt_trichotomy e₁ e₂ with hlt | rfl | hgt
  · rw [compare_lt_iff_lt.mpr (h₁.lt_of_exponent_lt h₂ hlt), compare_lt_iff_lt.mpr hlt]
    rfl
  · have hunit : (0 : ℚ) < 2 ^ e₁ := by positivity
    rw [compare_eq_iff_eq.mpr rfl, Ordering.then]
    rcases lt_trichotomy m₁ m₂ with hlt | rfl | hgt
    · rw [compare_lt_iff_lt.mpr hlt, compare_lt_iff_lt]
      exact mul_lt_mul_of_pos_right (by exact_mod_cast hlt) hunit
    · rw [compare_eq_iff_eq.mpr rfl, compare_eq_iff_eq.mpr rfl]
    · rw [compare_gt_iff_gt.mpr hgt, compare_gt_iff_gt]
      exact mul_lt_mul_of_pos_right (by exact_mod_cast hgt) hunit
  · rw [compare_gt_iff_gt.mpr (h₂.lt_of_exponent_lt h₁ hgt), compare_gt_iff_gt.mpr hgt]
    rfl

/-- A number is one canonical pair. -/
theorem Canonical.unique (h₁ : Canonical m₁ e₁) (h₂ : Canonical m₂ e₂)
    (h : (m₁ : ℚ) * 2 ^ e₁ = m₂ * 2 ^ e₂) : m₁ = m₂ ∧ e₁ = e₂ := by
  have hcompare := h₁.compare_eq h₂
  rw [compare_eq_iff_eq.mpr h, eq_comm, Ordering.then_eq_eq] at hcompare
  exact ⟨compare_eq_iff_eq.mp hcompare.2, compare_eq_iff_eq.mp hcompare.1⟩

end Pairs

/-! ### Values -/

def signValue : Sign → ℚ
  | .positive => 1
  | .negative => -1

theorem abs_signValue (sign : Sign) : |signValue sign| = 1 := by
  cases sign <;> simp [signValue]

theorem signValue_neg (sign : Sign) : signValue (-sign) = -signValue sign := by
  cases sign
  · exact (neg_neg _).symm
  · rfl

theorem signValue_mul (sign other : Sign) :
    signValue (sign * other) = signValue sign * signValue other := by
  cases sign <;> cases other <;> simp [signValue]

theorem signValue_div (sign other : Sign) :
    signValue (sign / other) = signValue sign / signValue other := by
  cases sign <;> cases other <;> simp [signValue] <;> rfl

theorem cast_apply (sign : Sign) (number : ℤ) :
    ((sign.apply number : ℤ) : ℚ) = signValue sign * number := by
  cases sign
  · rw [signValue, neg_one_mul]
    exact Int.cast_neg number
  · exact (one_mul _).symm

/-- The number that the parts of a double stand for, zero if it is infinite or undefined. -/
def partsValue : UnpackedFloat → ℚ
  | .finite sign mantissa exponent _ => signValue sign * (mantissa * 2 ^ exponent)
  | _ => 0

/-- The number that a double stands for, zero if it is infinite or undefined. -/
def value (x : Float) : ℚ := partsValue x.toModel.unpack

/-- A double without a mantissa is packed so that it can be taken apart again. -/
theorem unpack_pack_zero (sign : Sign) : (Float.Model.pack (.zero sign)).unpack = .zero sign := by
  cases sign <;> rfl

theorem unpack_pack_infinity (sign : Sign) :
    (Float.Model.pack (.infinity sign)).unpack = .infinity sign := by
  cases sign <;> rfl

/-- A double is finite exactly if it is zero or has a mantissa and an exponent. -/
theorem isFinite_iff {x : Float} : x.isFinite ↔ (∃ sign, x.toModel.unpack = .zero sign) ∨
    ∃ sign mantissa exponent, ∃ h : Representable mantissa exponent,
      x.toModel.unpack = .finite sign mantissa exponent h.pos := by
  change x.toModel.unpack.isFinite = true ↔ _
  constructor
  · intro hfinite
    cases hunpack : x.toModel.unpack with
    | infinity => rw [hunpack] at hfinite; cases hfinite
    | notANumber => rw [hunpack] at hfinite; cases hfinite
    | zero sign => exact .inl ⟨sign, rfl⟩
    | finite sign mantissa exponent hpos =>
      exact .inr ⟨sign, mantissa, exponent, representable_of_unpack hunpack, rfl⟩
  · rintro (⟨_, hunpack⟩ | ⟨_, _, _, _, hunpack⟩) <;> rw [hunpack] <;> rfl

theorem isNaN_of_isFinite {x : Float} (h : x.isFinite) : x.isNaN = false := by
  change x.toModel.unpack.isNaN = false
  rcases isFinite_iff.mp h with ⟨_, hunpack⟩ | ⟨_, _, _, _, hunpack⟩ <;> rw [hunpack] <;> rfl

theorem isFinite_of_unpack {x : Float} {sign : Sign} {mantissa : ℕ} {exponent : ℤ}
    {hpos : 0 < mantissa} (h : x.toModel.unpack = .finite sign mantissa exponent hpos) :
    x.isFinite :=
  isFinite_iff.mpr (.inr ⟨sign, mantissa, exponent, representable_of_unpack h, h⟩)

theorem isInf_of_unpack {x : Float} {sign : Sign} (h : x.toModel.unpack = .infinity sign) :
    x.isInf := by
  change x.toModel.unpack.isInf = true
  rw [h]
  rfl

/-- The size of a finite double is a canonical pair below `2 ^ 1024`. -/
theorem exists_canonical {x : Float} (h : x.isFinite) :
    ∃ mantissa exponent, Canonical mantissa exponent ∧ exponent ≤ 971 ∧
      |value x| = mantissa * 2 ^ exponent := by
  rcases isFinite_iff.mp h with ⟨sign, hunpack⟩ | ⟨sign, mantissa, exponent, hdouble, hunpack⟩
  · refine ⟨0, -1074, canonical_zero, by norm_num, ?_⟩
    rw [value, hunpack]
    simp [partsValue]
  · refine ⟨mantissa, exponent, hdouble.canonical, hdouble.exponent_le, ?_⟩
    have hsize : (0 : ℚ) ≤ mantissa * 2 ^ exponent := by positivity
    rw [value, hunpack]
    rw [partsValue, abs_mul, abs_signValue, one_mul, abs_of_nonneg hsize]

/-! ### The order -/

section Order

variable {x y : Float}

theorem compare_neg_neg (a b : ℚ) : compare (-a) (-b) = (compare a b).swap := by
  rcases lt_trichotomy a b with hlt | rfl | hgt
  · rw [compare_lt_iff_lt.mpr hlt]
    exact compare_gt_iff_gt.mpr (neg_lt_neg hlt)
  · rw [compare_eq_iff_eq.mpr rfl, compare_eq_iff_eq.mpr rfl]
    rfl
  · rw [compare_gt_iff_gt.mpr hgt]
    exact compare_lt_iff_lt.mpr (neg_lt_neg hgt)

/-- Finite doubles are compared as their values. -/
theorem compare_unpack (hx : x.isFinite) (hy : y.isFinite) :
    x.toModel.unpack.compare y.toModel.unpack = some (compare (value x) (value y)) := by
  have hpos {mantissa : ℕ} {exponent : ℤ} (hdouble : Representable mantissa exponent) :
      (0 : ℚ) < mantissa * 2 ^ exponent :=
    mul_pos (by exact_mod_cast hdouble.pos) (by positivity)
  rcases isFinite_iff.mp hx with ⟨s₁, hunpack₁⟩ | ⟨s₁, m₁, e₁, hdouble₁, hunpack₁⟩ <;>
    rcases isFinite_iff.mp hy with ⟨s₂, hunpack₂⟩ | ⟨s₂, m₂, e₂, hdouble₂, hunpack₂⟩ <;>
    rw [value, value, hunpack₁, hunpack₂]
  · exact congrArg some (compare_eq_iff_eq.mpr rfl).symm
  · have hsize := hpos hdouble₂
    cases s₂ with
    | positive =>
      rw [partsValue, signValue, one_mul]
      exact congrArg some (compare_lt_iff_lt.mpr hsize).symm
    | negative =>
      rw [partsValue, signValue, neg_one_mul]
      exact congrArg some (compare_gt_iff_gt.mpr (neg_lt_zero.mpr hsize)).symm
  · have hsize := hpos hdouble₁
    cases s₁ with
    | positive =>
      rw [partsValue, signValue, one_mul]
      exact congrArg some (compare_gt_iff_gt.mpr hsize).symm
    | negative =>
      rw [partsValue, signValue, neg_one_mul]
      exact congrArg some (compare_lt_iff_lt.mpr (neg_lt_zero.mpr hsize)).symm
  · have hsize₁ := hpos hdouble₁
    have hsize₂ := hpos hdouble₂
    have hcompare := hdouble₁.canonical.compare_eq hdouble₂.canonical
    cases s₁ with
    | positive =>
      cases s₂ with
      | positive =>
        simp only [partsValue, signValue, one_mul]
        rw [hcompare]
        rfl
      | negative =>
        simp only [partsValue, signValue, one_mul, neg_one_mul]
        exact congrArg some (compare_gt_iff_gt.mpr (by linarith)).symm
    | negative =>
      cases s₂ with
      | positive =>
        simp only [partsValue, signValue, one_mul, neg_one_mul]
        exact congrArg some (compare_lt_iff_lt.mpr (by linarith)).symm
      | negative =>
        simp only [partsValue, signValue, neg_one_mul]
        rw [compare_neg_neg, hcompare]
        rfl

theorem le_iff (hx : x.isFinite) (hy : y.isFinite) : x ≤ y ↔ value x ≤ value y := by
  have hle : x ≤ y ↔ x.toModel.unpack.le y.toModel.unpack = true := decide_eq_true_iff
  rw [hle, UnpackedFloat.le, compare_unpack hx hy, ← compare_le_iff_le]
  exact Ordering.isLE_iff_ne_gt

theorem lt_iff (hx : x.isFinite) (hy : y.isFinite) : x < y ↔ value x < value y := by
  have hlt : x < y ↔ x.toModel.unpack.lt y.toModel.unpack = true := decide_eq_true_iff
  rw [hlt, UnpackedFloat.lt, compare_unpack hx hy, ← compare_lt_iff_lt]
  simp

theorem beq_iff (hx : x.isFinite) (hy : y.isFinite) : x == y ↔ value x = value y := by
  change x.toModel.unpack.beq y.toModel.unpack = true ↔ _
  rw [UnpackedFloat.beq, compare_unpack hx hy, ← compare_eq_iff_eq]
  simp

end Order

/-! ### Signs -/

theorem value_of_unpack_finite {x : Float} {sign : Sign} {mantissa : ℕ} {exponent : ℤ}
    {hpos : 0 < mantissa} (h : x.toModel.unpack = .finite sign mantissa exponent hpos) :
    value x = signValue sign * (mantissa * 2 ^ exponent) := by
  rw [value, h, partsValue]

theorem value_of_unpack_zero {x : Float} {sign : Sign} (h : x.toModel.unpack = .zero sign) :
    value x = 0 := by
  rw [value, h]
  rfl

/-- The sign of a number, positive for zero. -/
def signOf (number : ℚ) : Sign := if number < 0 then .negative else .positive

theorem signOf_signValue (sign : Sign) : signOf (signValue sign) = sign := by
  cases sign
  · exact if_pos (neg_lt_zero.mpr one_pos)
  · exact if_neg zero_le_one.not_gt

/-- A number is its size with its sign. -/
theorem signValue_signOf (number : ℚ) : signValue (signOf number) * |number| = number := by
  unfold signOf
  split
  · rename_i hneg
    rw [signValue, abs_of_neg hneg, neg_one_mul, neg_neg]
  · rename_i hnonneg
    rw [signValue, abs_of_nonneg (not_lt.mp hnonneg), one_mul]

theorem signOf_mul (number : ℚ) {factor : ℚ} (hpos : 0 < factor) :
    signOf (number * factor) = signOf number := by
  simp only [signOf, ← not_le, mul_nonneg_iff_of_pos_right hpos]

/-- A finite double of value zero is one of the two zeros. -/
theorem exists_unpack_zero {x : Float} (h : x.isFinite) (hzero : value x = 0) :
    ∃ sign, x.toModel.unpack = .zero sign := by
  rcases isFinite_iff.mp h with hunpack | ⟨sign, mantissa, exponent, hdouble, hunpack⟩
  · exact hunpack
  · have hmantissa : (mantissa : ℚ) ≠ 0 := by exact_mod_cast hdouble.pos.ne'
    have hsize : (mantissa : ℚ) * 2 ^ exponent ≠ 0 := mul_ne_zero hmantissa (by positivity)
    rw [value_of_unpack_finite hunpack, ← abs_eq_zero, abs_mul, abs_signValue, one_mul,
      abs_eq_zero] at hzero
    exact absurd hzero hsize

/-- Any other finite double is taken apart into the sign and the size of its value. -/
theorem exists_unpack {x : Float} (h : x.isFinite) (hne : value x ≠ 0) :
    ∃ mantissa exponent, ∃ hdouble : Representable mantissa exponent,
      x.toModel.unpack = .finite (signOf (value x)) mantissa exponent hdouble.pos ∧
      |value x| = mantissa * 2 ^ exponent := by
  rcases isFinite_iff.mp h with ⟨sign, hunpack⟩ | ⟨sign, mantissa, exponent, hdouble, hunpack⟩
  · exact absurd (value_of_unpack_zero hunpack) hne
  · have hsize : (0 : ℚ) < mantissa * 2 ^ exponent :=
      mul_pos (by exact_mod_cast hdouble.pos) (by positivity)
    have hvalue := value_of_unpack_finite hunpack
    have hsign : signOf (value x) = sign := by
      rw [hvalue, signOf_mul _ hsize, signOf_signValue]
    refine ⟨mantissa, exponent, hdouble, hsign.symm ▸ hunpack, ?_⟩
    rw [hvalue, abs_mul, abs_signValue, one_mul, abs_of_pos hsize]

/-- Zero apart, there is one finite double of a value. -/
theorem eq_of_value_eq {x y : Float} (hx : x.isFinite) (hy : y.isFinite) (hne : value x ≠ 0)
    (h : value x = value y) : x = y := by
  obtain ⟨m₁, e₁, hdouble₁, hunpack₁, hsize₁⟩ := exists_unpack hx hne
  obtain ⟨m₂, e₂, hdouble₂, hunpack₂, hsize₂⟩ := exists_unpack hy (h ▸ hne)
  obtain ⟨rfl, rfl⟩ := hdouble₁.canonical.unique hdouble₂.canonical (by rw [← hsize₁, ← hsize₂, h])
  rw [← pack_unpack x, ← pack_unpack y, hunpack₁, hunpack₂, h]

theorem value_zero : (0.0 : Float).isFinite ∧ value 0.0 = 0 := by
  decide +kernel

theorem value_one : (1.0 : Float).isFinite ∧ value 1.0 = 1 := by
  decide +kernel

theorem beq_zero_iff {x : Float} (h : x.isFinite) : x == 0.0 ↔ value x = 0 := by
  obtain ⟨hfinite, hzero⟩ := value_zero
  rw [beq_iff h hfinite, hzero]

theorem neg_spec {x : Float} (h : x.isFinite) : (-x).isFinite ∧ value (-x) = -value x := by
  rcases isFinite_iff.mp h with ⟨sign, hunpack⟩ | ⟨sign, mantissa, exponent, hdouble, hunpack⟩
  · have hneg : (-x).toModel.unpack = .zero (-sign) := by
      change (Float.Model.pack x.toModel.unpack.neg).unpack = _
      rw [hunpack]
      exact unpack_pack_zero _
    rw [value_of_unpack_zero hneg, value_of_unpack_zero hunpack]
    exact ⟨isFinite_iff.mpr (.inl ⟨_, hneg⟩), neg_zero.symm⟩
  · have hneg : (-x).toModel.unpack = .finite (-sign) mantissa exponent hdouble.pos := by
      change (Float.Model.pack x.toModel.unpack.neg).unpack = _
      rw [hunpack]
      exact unpack_pack _ hdouble
    rw [value_of_unpack_finite hneg, value_of_unpack_finite hunpack, signValue_neg, neg_mul]
    exact ⟨isFinite_of_unpack hneg, rfl⟩

theorem abs_spec {x : Float} (h : x.isFinite) : x.abs.isFinite ∧ value x.abs = |value x| := by
  rcases isFinite_iff.mp h with ⟨sign, hunpack⟩ | ⟨sign, mantissa, exponent, hdouble, hunpack⟩
  · have habs : x.abs.toModel.unpack = .zero .positive := by
      change (Float.Model.pack x.toModel.unpack.abs).unpack = _
      rw [hunpack]
      exact unpack_pack_zero _
    rw [value_of_unpack_zero habs, value_of_unpack_zero hunpack]
    exact ⟨isFinite_iff.mpr (.inl ⟨_, habs⟩), abs_zero.symm⟩
  · have habs : x.abs.toModel.unpack = .finite .positive mantissa exponent hdouble.pos := by
      change (Float.Model.pack x.toModel.unpack.abs).unpack = _
      rw [hunpack]
      exact unpack_pack _ hdouble
    have hsize : (0 : ℚ) ≤ mantissa * 2 ^ exponent := by positivity
    rw [value_of_unpack_finite habs, value_of_unpack_finite hunpack, abs_mul, abs_signValue,
      abs_of_nonneg hsize, signValue]
    exact ⟨isFinite_of_unpack habs, rfl⟩

/-! ### Doubles from canonical pairs -/

/-- A sign and a canonical pair as parts of a double. -/
def ofPair (sign : Sign) (mantissa : ℕ) (exponent : ℤ) : UnpackedFloat :=
  if h : mantissa = 0 then .zero sign
  else .finite sign mantissa exponent (Nat.pos_of_ne_zero h)

section Pair

variable {mantissa : ℕ} {exponent : ℤ}

/-- A canonical pair that is not too large makes a double of its size. -/
theorem ofPair_spec (sign : Sign) (h : Canonical mantissa exponent) (hmax : exponent ≤ 971) :
    let x := Float.ofModel (.pack (ofPair sign mantissa exponent))
    x.isFinite ∧ value x = signValue sign * (mantissa * 2 ^ exponent) := by
  dsimp only
  unfold ofPair
  split
  · rename_i hzero
    rw [hzero, Nat.cast_zero, zero_mul, mul_zero]
    exact ⟨isFinite_iff.mpr (.inl ⟨_, unpack_pack_zero sign⟩),
      value_of_unpack_zero (unpack_pack_zero sign)⟩
  · rename_i hnonzero
    have hdouble : Representable mantissa exponent :=
      ⟨Nat.pos_of_ne_zero hnonzero, h.lt, h.le_exponent, hmax, h.normal⟩
    exact ⟨isFinite_of_unpack (unpack_pack sign hdouble),
      value_of_unpack_finite (unpack_pack sign hdouble)⟩

/-- A canonical pair that is too large makes an infinite double. -/
theorem unpack_ofPair_infinity (sign : Sign) (h : Canonical mantissa exponent)
    (hlarge : 971 < exponent) :
    (Float.ofModel (.pack (ofPair sign mantissa exponent))).toModel.unpack = .infinity sign := by
  have hfull : 2 ^ 52 ≤ mantissa := h.normal.resolve_right fun hsmall ↦ by omega
  have hinfinite : UnpackedFloat.pack .binary64 (ofPair sign mantissa exponent) =
      packedInfinity .binary64 sign := by
    have hbiased : exponent + Format.binary64.exponentBias +
        Format.binary64.mantissaBitsWithoutImplicit = exponent + 1075 := by
      show exponent + 1023 + 52 = _
      omega
    have hoverflow : 2 ^ Format.binary64.exponentBits ≤ (exponent + 1075).toNat + 1 := by
      show 2 ^ 11 ≤ _
      omega
    rw [ofPair, dif_neg (by omega), UnpackedFloat.pack]
    dsimp only
    rw [hbiased, if_pos hoverflow]
  change (Float.Model.pack (ofPair sign mantissa exponent)).unpack = .infinity sign
  unfold Float.Model.pack
  simp only [hinfinite]
  exact unpack_pack_infinity sign

end Pair

/-- The number is the value of a finite double. -/
def IsDouble (number : ℚ) : Prop := ∃ x : Float, x.isFinite ∧ value x = number

theorem isDouble_value {x : Float} (h : x.isFinite) : IsDouble (value x) := ⟨x, h, rfl⟩

theorem IsDouble.neg {number : ℚ} : IsDouble number → IsDouble (-number)
  | ⟨x, hfinite, hvalue⟩ => ⟨-x, (neg_spec hfinite).1, by rw [(neg_spec hfinite).2, hvalue]⟩

/-- The sizes of finite doubles are the canonical pairs below `2 ^ 1024`. -/
theorem isDouble_iff {number : ℚ} : IsDouble number ↔
    ∃ mantissa exponent, Canonical mantissa exponent ∧ exponent ≤ 971 ∧
      |number| = mantissa * 2 ^ exponent := by
  constructor
  · rintro ⟨x, hfinite, rfl⟩
    exact exists_canonical hfinite
  · rintro ⟨mantissa, exponent, hcanonical, hmax, hsize⟩
    obtain ⟨hfinite, hvalue⟩ := ofPair_spec .positive hcanonical hmax
    rw [signValue, one_mul, ← hsize] at hvalue
    have hdouble : IsDouble |number| := ⟨_, hfinite, hvalue⟩
    rcases abs_choice number with heq | heq
    · rwa [heq] at hdouble
    · rw [heq] at hdouble
      simpa using hdouble.neg

theorem Canonical.isDouble {mantissa : ℕ} {exponent : ℤ} (h : Canonical mantissa exponent)
    (hmax : exponent ≤ 971) : IsDouble (mantissa * 2 ^ exponent) :=
  isDouble_iff.mpr ⟨mantissa, exponent, h, hmax, abs_of_nonneg (by positivity)⟩

theorem isDouble_of_lt {mantissa : ℕ} (hlt : mantissa < 2 ^ 53) (places : ℕ)
    (hmax : places ≤ 2045) : IsDouble (mantissa * 2 ^ ((places : ℤ) - 1074)) := by
  induction places generalizing mantissa with
  | zero => exact Canonical.isDouble ⟨hlt, by norm_num, .inr (by norm_num)⟩ (by norm_num)
  | succ places ih =>
    rcases le_or_gt (2 ^ 52) mantissa with hfull | hmissing
    · exact Canonical.isDouble ⟨hlt, by omega, .inl hfull⟩ (by omega)
    · -- the mantissa has a bit to spare
      have hdouble : ((2 * mantissa : ℕ) : ℚ) * 2 ^ ((places : ℤ) - 1074) =
          mantissa * 2 ^ (((places + 1 : ℕ) : ℤ) - 1074) := by
        rw [Nat.cast_succ, add_sub_right_comm, zpow_add_one₀ two_ne_zero]
        push_cast
        ring
      rw [← hdouble]
      exact ih (by omega) (by omega)

/-- Whole numbers of a unit that is a power of two are values of doubles, up to `2 ^ 53`. -/
theorem isDouble_grid {count exponent : ℤ} (hcount : |count| ≤ 2 ^ 53) (hleast : -1074 ≤ exponent)
    (hmax : exponent ≤ 970) : IsDouble (count * 2 ^ exponent) := by
  have hsize : IsDouble ((count.natAbs : ℕ) * 2 ^ exponent) := by
    obtain ⟨places, rfl⟩ : ∃ places : ℕ, exponent = places - 1074 :=
      ⟨(exponent + 1074).toNat, by omega⟩
    rw [Int.abs_eq_natAbs] at hcount
    rcases (show count.natAbs ≤ 2 ^ 53 by omega).lt_or_eq with hlt | heq
    · exact isDouble_of_lt hlt places (by omega)
    · have hcarry := isDouble_of_lt (show 2 ^ 52 < 2 ^ 53 by norm_num) (places + 1) (by omega)
      rw [heq]
      convert hcarry using 1
      rw [Nat.cast_succ, add_sub_right_comm, zpow_add_one₀ two_ne_zero]
      push_cast
      ring
  rcases Int.natAbs_eq count with heq | heq <;> rw [heq]
  · rwa [Int.cast_natCast]
  · rw [Int.cast_neg, Int.cast_natCast, neg_mul]
    exact hsize.neg

/-- A double greater than another is at least one unit of the other greater. -/
theorem Canonical.add_one_le {mantissa : ℕ} {exponent : ℤ} {number : ℚ}
    (hpair : Canonical mantissa exponent) (h : IsDouble number)
    (hlt : (mantissa : ℚ) * 2 ^ exponent < number) : (mantissa + 1) * 2 ^ exponent ≤ number := by
  have hunit : (0 : ℚ) < 2 ^ exponent := by positivity
  have hnonneg : (0 : ℚ) ≤ mantissa * 2 ^ exponent := by positivity
  obtain ⟨m, e, hcanonical, -, hsize⟩ := isDouble_iff.mp h
  rw [abs_of_pos (hnonneg.trans_lt hlt)] at hsize
  rw [hsize] at hlt ⊢
  rcases lt_trichotomy e exponent with hless | rfl | hmore
  · exact absurd hlt (hcanonical.lt_of_exponent_lt hpair hless).not_gt
  · have hmantissa : mantissa < m := by exact_mod_cast lt_of_mul_lt_mul_right hlt hunit.le
    exact mul_le_mul_of_nonneg_right (by exact_mod_cast hmantissa) hunit.le
  · have hfull : 2 ^ 52 ≤ m := hcanonical.normal.resolve_right fun heq ↦ by
      have := hpair.le_exponent
      omega
    have hfull : (2 : ℚ) ^ 52 ≤ m := by exact_mod_cast hfull
    have hmantissa : (mantissa : ℚ) + 1 ≤ 2 ^ 53 := by exact_mod_cast hpair.lt
    calc (mantissa + 1) * 2 ^ exponent ≤ (2 : ℚ) ^ 53 * 2 ^ exponent :=
          mul_le_mul_of_nonneg_right hmantissa hunit.le
      _ = 2 ^ 52 * 2 ^ (exponent + 1) := by
          rw [zpow_add_one₀ two_ne_zero]
          linarith
      _ ≤ 2 ^ 52 * 2 ^ e :=
          mul_le_mul_of_nonneg_left (zpow_le_zpow_right₀ one_le_two hmore) (by positivity)
      _ ≤ m * 2 ^ e := mul_le_mul_of_nonneg_right hfull (by positivity)

end SpiralMachine.Number
