import Mathlib.Tactic.IntervalCases
import Mathlib.Tactic.Ring
import SpiralMachine.Number.Numeral
import SpiralMachine.Proofs.Number.Rounding

/-!
# Reading a coefficient and a power of ten

`ofScientific_eq` says that a coefficient and a power of ten are read as the double in whose
interval their product lies. Large ones go through the exact product or quotient
(`mul_eq`, `div_eq`); small ones are a product or a quotient of two doubles that are exact,
so that one rounding is all that happens there too.
-/

set_option autoImplicit false

namespace SpiralMachine.Number

open Float.Model Float.Model.UnpackedFloat

/-! ### Products and quotients -/

/-- An exact mantissa stands for itself. -/
theorem represents_exact (mantissa : ℕ) :
    Represents (.ofMantissaAndAccuracy mantissa .exact) mantissa :=
  rfl

/-- A quotient is known by its whole part and by the remainder beside half the divisor. -/
theorem represents_quotient (dividend : ℕ) {divisor : ℕ} (hpos : 0 < divisor) :
    Represents (.ofMantissaAndAccuracy (dividend / divisor)
      (accuracyOfFraction (dividend % divisor) divisor)) (dividend / divisor : ℚ) := by
  have hdivisor : (0 : ℚ) < divisor := by exact_mod_cast hpos
  have hmod : ((dividend % divisor : ℕ) : ℚ) < divisor := by
    exact_mod_cast Nat.mod_lt dividend hpos
  have hparts : (dividend : ℚ) / divisor =
      (dividend / divisor : ℕ) + (dividend % divisor : ℕ) / divisor := by
    have hsum : ((divisor * (dividend / divisor) + dividend % divisor : ℕ) : ℚ) = dividend :=
      congrArg Nat.cast (Nat.div_add_mod dividend divisor)
    push_cast at hsum
    field_simp
    linarith
  generalize dividend % divisor = rest at *
  generalize dividend / divisor = whole at *
  rw [hparts]
  unfold accuracyOfFraction
  split
  · rename_i hzero
    rw [hzero, Nat.cast_zero, zero_div, add_zero]
    exact represents_exact whole
  · rename_i hzero
    have hrest : (0 : ℚ) < rest := by exact_mod_cast Nat.pos_of_ne_zero hzero
    rcases lt_trichotomy (2 * rest) divisor with hlt | heq | hgt
    · rw [Nat.compare_eq_lt.mpr hlt]
      have hlt : 2 * (rest : ℚ) < divisor := by exact_mod_cast hlt
      have hhalf : (rest : ℚ) / divisor < 1 / 2 := by
        rw [div_lt_div_iff₀ hdivisor two_pos]
        linarith
      have hfraction : 0 < (rest : ℚ) / divisor := by positivity
      show (whole : ℚ) < _ ∧ _ < (whole : ℚ) + 1 / 2
      constructor <;> linarith
    · rw [Nat.compare_eq_eq.mpr heq]
      have heq : 2 * (rest : ℚ) = divisor := by exact_mod_cast heq
      have hhalf : (rest : ℚ) / divisor = 1 / 2 := by
        rw [div_eq_div_iff hdivisor.ne' two_ne_zero]
        linarith
      rw [hhalf]
      rfl
    · rw [Nat.compare_eq_gt.mpr hgt]
      have hgt : (divisor : ℚ) < 2 * rest := by exact_mod_cast hgt
      have hhalf : 1 / 2 < (rest : ℚ) / divisor := by
        rw [div_lt_div_iff₀ two_pos hdivisor]
        linarith
      have hone : (rest : ℚ) / divisor < 1 := by
        rwa [div_lt_one hdivisor]
      show (whole : ℚ) + 1 / 2 < _ ∧ _ < (whole : ℚ) + 1
      constructor <;> linarith

section Products

variable {mantissa : ℕ} {exponent : ℤ} {m₁ m₂ : ℕ} {e₁ e₂ : ℤ} {h₁ : 0 < m₁} {h₂ : 0 < m₂}

/-- The product of the mantissas stands for the product. -/
theorem represents_mul (m₁ m₂ : ℕ) (e₁ e₂ : ℤ) :
    Represents (.ofMantissaAndAccuracy (m₁ * m₂) .exact)
      (m₁ * 2 ^ e₁ * (m₂ * 2 ^ e₂) / 2 ^ (e₁ + e₂)) := by
  have hvalue : (m₁ : ℚ) * 2 ^ e₁ * (m₂ * 2 ^ e₂) / 2 ^ (e₁ + e₂) = (m₁ * m₂ : ℕ) := by
    rw [zpow_add₀ two_ne_zero]
    push_cast
    field_simp
  rw [hvalue]
  exact represents_exact _

/-- A product with enough bits is rounded to the double in whose interval it lies. -/
theorem mul_eq (hdouble : Representable mantissa exponent)
    (h : RoundsTo mantissa exponent (m₁ * 2 ^ e₁ * (m₂ * 2 ^ e₂))) (hbits : 2 ^ 52 ≤ m₁ * m₂) :
    UnpackedFloat.mul .binary64 (.finite .positive m₁ e₁ h₁) (.finite .positive m₂ e₂ h₂) =
      .finite .positive mantissa exponent hdouble.pos :=
  roundWithAccuracy_eq _ hdouble h (represents_mul m₁ m₂ e₁ e₂)
    (.inl ((Nat.le_log2 (Nat.mul_pos h₁ h₂).ne').mpr hbits))

/-- The quotient of the mantissas, of which the first was shifted until the quotient has all its
bits, stands for the quotient. -/
theorem represents_divCore (h₁ : 0 < m₁) (h₂ : 0 < m₂) (e₁ e₂ : ℤ) :
    let (quotient, scale, accuracy) := divCore .binary64 m₁ e₁ m₂ e₂
    Represents (.ofMantissaAndAccuracy quotient accuracy)
        (m₁ * 2 ^ e₁ / (m₂ * 2 ^ e₂) / 2 ^ scale) ∧
      (52 ≤ quotient.log2 ∨ scale ≤ -1074) := by
  unfold divCore
  dsimp only
  generalize htarget : min (e₁ - e₂) (Format.binary64.targetExponent
    (totalExponent m₁ e₁ - totalExponent m₂ e₂)) = target
  generalize hshift : (e₁ - e₂ - target).toNat = shift
  have hreach : (shift : ℤ) + target = e₁ - e₂ := by omega
  have hvalue : (m₁ : ℚ) * 2 ^ e₁ / (m₂ * 2 ^ e₂) / 2 ^ target = (m₁ <<< shift : ℕ) / m₂ := by
    rw [Nat.shiftLeft_eq]
    have hpower : (2 : ℚ) ^ shift * 2 ^ target * 2 ^ e₂ = 2 ^ e₁ := by
      rw [← zpow_natCast, ← zpow_add₀ two_ne_zero, ← zpow_add₀ two_ne_zero, hreach,
        Int.sub_add_cancel]
    push_cast
    rw [← hpower]
    field_simp
  refine ⟨?_, ?_⟩
  · rw [hvalue]
    exact represents_quotient _ h₂
  · by_cases hleast : target ≤ -1074
    · exact .inr hleast
    · refine .inl ?_
      have hwide : m₂.log2 + 53 ≤ m₁.log2 + shift := by
        change min (e₁ - e₂) (max (((m₁.log2 : ℤ) + 1 + e₁) - (m₂.log2 + 1 + e₂) -
          ((1 + 52 : ℕ) : ℤ)) (3 - 2 ^ 10 - ((1 + 52 : ℕ) : ℤ))) = target at htarget
        omega
      have hpower : 2 ^ 52 * m₂ ≤ m₁ <<< shift := by
        rw [Nat.shiftLeft_eq]
        calc 2 ^ 52 * m₂ ≤ 2 ^ 52 * 2 ^ (m₂.log2 + 1) :=
              Nat.mul_le_mul_left _ Nat.lt_log2_self.le
          _ = 2 ^ (m₂.log2 + 53) := by rw [← Nat.pow_add]; congr 1; omega
          _ ≤ 2 ^ (m₁.log2 + shift) := Nat.pow_le_pow_right two_pos hwide
          _ = 2 ^ m₁.log2 * 2 ^ shift := Nat.pow_add ..
          _ ≤ m₁ * 2 ^ shift := Nat.mul_le_mul_right _ (Nat.log2_self_le h₁.ne')
      have hquotient : 2 ^ 52 ≤ m₁ <<< shift / m₂ := (Nat.le_div_iff_mul_le h₂).mpr hpower
      exact (Nat.le_log2 (by omega)).mpr hquotient

/-- A quotient is rounded to the double in whose interval it lies. -/
theorem div_eq (hdouble : Representable mantissa exponent)
    (h : RoundsTo mantissa exponent (m₁ * 2 ^ e₁ / (m₂ * 2 ^ e₂))) :
    UnpackedFloat.div .binary64 (.finite .positive m₁ e₁ h₁) (.finite .positive m₂ e₂ h₂) =
      .finite .positive mantissa exponent hdouble.pos := by
  obtain ⟨hstart, hbits⟩ := represents_divCore h₁ h₂ e₁ e₂
  exact roundWithAccuracy_eq _ hdouble h hstart hbits

end Products

/-! ### Through exact products -/

variable {mantissa : ℕ} {exponent : ℤ}

/-- Which powers of ten a product in the interval of a double can have. -/
theorem RoundsTo.power_range {coefficient : ℕ} {power : ℤ}
    (hdouble : Representable mantissa exponent)
    (h : RoundsTo mantissa exponent (coefficient * 10 ^ power)) :
    coefficient ≠ 0 ∧ power ≤ 2048 ∧ -(2048 + (coefficient.log2 : ℤ)) ≤ power := by
  obtain ⟨hlow, hhigh⟩ := h.range hdouble
  have hleast := hdouble.le_exponent
  have hmost := hdouble.exponent_le
  have hpower : ∀ {low high : ℤ}, (2 : ℚ) ^ low < 2 ^ high → low < high :=
    (zpow_lt_zpow_iff_right₀ one_lt_two).mp
  have hten : (0 : ℚ) < 10 ^ power := by positivity
  have hcoefficient : coefficient ≠ 0 := by
    rintro rfl
    rw [Nat.cast_zero, zero_mul] at hlow
    exact absurd hlow (not_le.mpr (by positivity))
  refine ⟨hcoefficient, ?_, ?_⟩
  · by_contra hlarge
    have hone : (1 : ℚ) ≤ coefficient := by
      exact_mod_cast Nat.one_le_iff_ne_zero.mpr hcoefficient
    have hle : (2 : ℚ) ^ power ≤ coefficient * 10 ^ power :=
      calc (2 : ℚ) ^ power ≤ 10 ^ power :=
            zpow_le_zpow_left₀ (by omega) two_pos.le (by norm_num)
        _ ≤ coefficient * 10 ^ power := le_mul_of_one_le_left hten.le hone
    have := hpower (hle.trans_lt hhigh)
    omega
  · by_contra hsmall
    have hle : (10 : ℚ) ^ power ≤ 2 ^ power := by
      obtain ⟨size, rfl⟩ : ∃ size : ℕ, power = -size := ⟨(-power).toNat, by omega⟩
      rw [zpow_neg, zpow_neg]
      exact inv_anti₀ (by positivity) (zpow_le_zpow_left₀ (by omega) two_pos.le (by norm_num))
    have hlt : (coefficient : ℚ) * 10 ^ power < 2 ^ (coefficient.log2 + 1 + power) :=
      calc (coefficient : ℚ) * 10 ^ power < 2 ^ (coefficient.log2 + 1) * 10 ^ power :=
            mul_lt_mul_of_pos_right (by exact_mod_cast Nat.lt_log2_self) hten
        _ ≤ 2 ^ (coefficient.log2 + 1) * 2 ^ power :=
            mul_le_mul_of_nonneg_left hle (by positivity)
        _ = 2 ^ (coefficient.log2 + 1 + power) := by
            rw [zpow_add₀ two_ne_zero]
            rfl
    have := hpower (hlow.trans_lt hlt)
    omega

/-- A coefficient and a power of ten are rounded to the double in whose interval their product
lies. What is refused without a computation is outside every interval. -/
theorem ofScientific_model_eq {coefficient : ℕ} {power : ℤ}
    (hdouble : Representable mantissa exponent)
    (h : RoundsTo mantissa exponent (coefficient * 10 ^ power)) :
    UnpackedFloat.ofScientific .binary64 coefficient power =
      .finite .positive mantissa exponent hdouble.pos := by
  obtain ⟨hcoefficient, hlarge, hsmall⟩ := h.power_range hdouble
  have hlarge : ¬power > 2 ^ Format.binary64.exponentBits := not_lt.mpr hlarge
  have hsmall : ¬power < -((2 ^ Format.binary64.exponentBits : ℤ) + coefficient.log2) :=
    not_lt.mpr hsmall
  unfold UnpackedFloat.ofScientific
  rw [dif_neg hcoefficient, if_neg hlarge, if_neg hsmall]
  split
  · rename_i hpositive
    obtain ⟨size, rfl⟩ : ∃ size : ℕ, power = size := ⟨power.toNat, by omega⟩
    change UnpackedFloat.mul .binary64 (.finite .positive (coefficient <<< 53) (-53) _)
      (.finite .positive (10 ^ size) 0 _) = _
    refine mul_eq hdouble ?_ ?_
    · convert h using 1
      rw [Nat.shiftLeft_eq]
      push_cast
      rw [zpow_neg, zpow_natCast]
      norm_num
      ring
    · rw [Nat.shiftLeft_eq]
      nlinarith [Nat.one_le_iff_ne_zero.mpr hcoefficient, Nat.one_le_pow size 10 (by norm_num)]
  · rename_i hnegative
    obtain ⟨size, rfl⟩ : ∃ size : ℕ, power = -size := ⟨(-power).toNat, by omega⟩
    refine div_eq hdouble ?_
    rw [neg_neg, Int.toNat_natCast]
    convert h using 1
    push_cast
    rw [zpow_neg, zpow_natCast]
    norm_num
    ring

/-! ### Through exact doubles -/

/-- A number below `2 ^ 53` is a double, with a full mantissa. -/
theorem unpack_toFloat {number : ℕ} (hpos : 0 < number) (hlt : number < 2 ^ 53) :
    ∃ mantissa exponent, ∃ hdouble : Representable mantissa exponent,
      2 ^ 52 ≤ mantissa ∧ (mantissa : ℚ) * 2 ^ exponent = number ∧
        number.toUInt64.toFloat.toModel.unpack =
          .finite .positive mantissa exponent hdouble.pos := by
  have hlog : number.log2 ≤ 52 := Nat.lt_succ_iff.mp ((Nat.log2_lt hpos.ne').mpr hlt)
  generalize hshift : 52 - number.log2 = shift
  have hlow : 2 ^ 52 ≤ number * 2 ^ shift := by
    calc 2 ^ 52 = 2 ^ number.log2 * 2 ^ shift := by rw [← Nat.pow_add]; congr 1; omega
      _ ≤ number * 2 ^ shift := Nat.mul_le_mul_right _ (Nat.log2_self_le hpos.ne')
  have hhigh : number * 2 ^ shift < 2 ^ 53 := by
    calc number * 2 ^ shift < 2 ^ (number.log2 + 1) * 2 ^ shift :=
          Nat.mul_lt_mul_of_pos_right Nat.lt_log2_self (by positivity)
      _ = 2 ^ 53 := by rw [← Nat.pow_add]; congr 1; omega
  have hdouble : Representable (number * 2 ^ shift) (-shift) :=
    ⟨by omega, hhigh, by omega, by omega, .inl hlow⟩
  have hvalue : ((number * 2 ^ shift : ℕ) : ℚ) * 2 ^ (-shift : ℤ) = number := by
    rw [zpow_neg, zpow_natCast]
    push_cast
    field_simp
  have hround : UnpackedFloat.ofUInt64 .binary64 number.toUInt64 =
      .finite .positive (number * 2 ^ shift) (-shift) hdouble.pos := by
    have hnat : number.toUInt64.toNat = number := by
      show number % 2 ^ 64 = number
      omega
    have htarget : Format.binary64.targetExponent (totalExponent number 0) = -shift := by
      rw [targetExponent_eq]
      omega
    unfold UnpackedFloat.ofUInt64 UnpackedFloat.ofNat UnpackedFloat.ofInt
      UnpackedFloat.normalize
    rw [hnat, Int.compare_eq_gt.mpr (by omega)]
    unfold UnpackedFloat.round decreaseExponent
    dsimp only
    rw [Int.toNat_natCast, htarget]
    have hsteps : (0 - -(shift : ℤ)).toNat = shift := by omega
    rw [hsteps, Nat.shiftLeft_eq]
    refine roundWithAccuracy_eq _ hdouble (roundsTo_self _ _) ?_ (.inl ?_)
    · rw [Int.zero_sub, mul_div_assoc, div_self (by positivity), mul_one]
      exact represents_exact _
    · exact (Nat.le_log2 (by omega)).mpr hlow
  refine ⟨number * 2 ^ shift, -shift, hdouble, hlow, hvalue, ?_⟩
  show (Float.Model.pack (UnpackedFloat.ofUInt64 .binary64 number.toUInt64)).unpack = _
  rw [hround]
  exact unpack_pack .positive hdouble

/-- Each entry of the table has the value it stands for. -/
theorem exactlyRepresentablePowersOfTen_value :
    ∀ index : Fin Float.exactlyRepresentablePowersOfTen.size,
      (match Float.exactlyRepresentablePowersOfTen[index].toModel.unpack with
        | .finite .positive mantissa exponent _ =>
          mantissa * 2 ^ exponent.toNat == 10 ^ index.val * 2 ^ (-exponent).toNat
        | _ => false) = true := by
  decide +kernel

/-- The powers of ten that are doubles. -/
theorem unpack_exactlyRepresentablePowersOfTen {power : ℕ}
    (h : power < Float.exactlyRepresentablePowersOfTen.size) :
    ∃ (mantissa : ℕ) (exponent : ℤ) (hpos : 0 < mantissa),
      (mantissa : ℚ) * 2 ^ exponent = 10 ^ power ∧
        Float.exactlyRepresentablePowersOfTen[power].toModel.unpack =
          .finite .positive mantissa exponent hpos := by
  have hentry := exactlyRepresentablePowersOfTen_value ⟨power, h⟩
  change (match Float.exactlyRepresentablePowersOfTen[power].toModel.unpack with
    | .finite .positive mantissa exponent _ =>
      mantissa * 2 ^ exponent.toNat == 10 ^ power * 2 ^ (-exponent).toNat
    | _ => false) = true at hentry
  split at hentry
  · rename_i mantissa exponent hpos hunpack
    refine ⟨mantissa, exponent, hpos, ?_, hunpack⟩
    have hvalue := congrArg (Nat.cast (R := ℚ)) (beq_iff_eq.mp hentry)
    push_cast at hvalue
    rcases le_total 0 exponent with hle | hle
    · obtain ⟨size, rfl⟩ := Int.eq_ofNat_of_zero_le hle
      simpa using hvalue
    · obtain ⟨size, rfl⟩ : ∃ size : ℕ, exponent = -size := ⟨(-exponent).toNat, by omega⟩
      rw [zpow_neg, zpow_natCast, ← div_eq_mul_inv, div_eq_iff (by positivity)]
      simpa using hvalue
  · cases hentry

/-! ### Both ways -/

/-- A coefficient and a power of ten are read as the double in whose interval their product
lies. -/
theorem ofScientific_eq {coefficient : ℕ} {power : ℤ} (hdouble : Representable mantissa exponent)
    (h : RoundsTo mantissa exponent (coefficient * 10 ^ power)) (isNegative : Bool) (size : ℕ)
    (hpower : power = if isNegative then -(size : ℤ) else size) :
    Float.ofScientific coefficient isNegative size =
      .ofModel (.pack (.finite .positive mantissa exponent hdouble.pos)) := by
  have hcoefficient := (h.power_range hdouble).1
  unfold Float.ofScientific
  split
  · rename_i hsmall
    obtain ⟨m₁, e₁, hfirst, hfull, hvalue₁, hunpack₁⟩ :=
      unpack_toFloat (Nat.pos_of_ne_zero hcoefficient) hsmall.1
    have hsize : size < Float.exactlyRepresentablePowersOfTen.size := by
      simp [Float.exactlyRepresentablePowersOfTen]
      omega
    obtain ⟨m₂, e₂, hpos₂, hvalue₂, hunpack₂⟩ := unpack_exactlyRepresentablePowersOfTen hsize
    dsimp only
    split
    · rename_i hnegative
      rw [hpower, if_pos hnegative, zpow_neg, zpow_natCast, ← div_eq_mul_inv] at h
      show Float.ofModel (.pack (UnpackedFloat.div .binary64 _ _)) = _
      rw [hunpack₁, hunpack₂, div_eq hdouble]
      rwa [hvalue₁, hvalue₂]
    · rename_i hpositive
      rw [hpower, if_neg hpositive, zpow_natCast] at h
      show Float.ofModel (.pack (UnpackedFloat.mul .binary64 _ _)) = _
      rw [hunpack₁, hunpack₂, mul_eq hdouble]
      · rwa [hvalue₁, hvalue₂]
      · exact hfull.trans (Nat.le_mul_of_pos_right _ hpos₂)
  · have hsign : (if isNegative then Int.negOfNat size else Int.ofNat size) = power := by
      rw [hpower]
      cases isNegative
      · rfl
      · exact Int.negOfNat_eq
    dsimp only
    rw [hsign]
    show Float.ofModel (.pack (UnpackedFloat.ofScientific .binary64 coefficient power)) = _
    rw [ofScientific_model_eq hdouble h]

end SpiralMachine.Number
