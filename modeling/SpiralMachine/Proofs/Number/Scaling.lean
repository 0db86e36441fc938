import SpiralMachine.Proofs.Number.Nearest

/-!
# Powers of two in quotients

Rounding looks at a number only: which mantissa, exponent and accuracy it is known by makes no
difference (`roundWithAccuracy_congr`). So a quotient stays the same double when both of its
numbers are multiplied by one power of two, as long as that loses no bits (`ScaledBy`,
`div_scaled`).
-/

set_option autoImplicit false

namespace SpiralMachine.Number

open Float.Model Float.Model.UnpackedFloat

/-! ### Rounding a number -/

/-- There is one exponent that rounding aims at for a number. -/
theorem target_le {size : ℚ} {target other : ℤ} (hleast : -1074 ≤ target)
    (hbelow : size < 2 ^ 53 * 2 ^ target)
    (hfull : other = -1074 ∨ 2 ^ 52 * 2 ^ other ≤ size) : other ≤ target := by
  by_contra hgt
  have hlarge := hfull.resolve_left (by omega)
  have hpower : (2 : ℚ) ^ 53 * 2 ^ target ≤ 2 ^ 52 * 2 ^ other := by
    calc (2 : ℚ) ^ 53 * 2 ^ target = 2 ^ 52 * 2 ^ (target + 1) := by
          rw [zpow_add_one₀ two_ne_zero]
          ring
      _ ≤ 2 ^ 52 * 2 ^ other :=
          mul_le_mul_of_nonneg_left (zpow_le_zpow_right₀ one_le_two (by omega)) (by positivity)
  linarith

/-- A number is rounded to the same double, whichever mantissa and accuracy it is known by. -/
theorem roundWithAccuracy_congr (sign : Sign) {first second : ℕ} {e₁ e₂ : ℤ}
    {accuracy₁ accuracy₂ : Accuracy} {size : ℚ}
    (h₁ : Represents (.ofMantissaAndAccuracy first accuracy₁) (size / 2 ^ e₁))
    (h₂ : Represents (.ofMantissaAndAccuracy second accuracy₂) (size / 2 ^ e₂))
    (hbits₁ : 52 ≤ first.log2 ∨ e₁ ≤ -1074) (hbits₂ : 52 ≤ second.log2 ∨ e₂ ≤ -1074) :
    roundWithAccuracy .binary64 sign first e₁ accuracy₁ =
      roundWithAccuracy .binary64 sign second e₂ accuracy₂ := by
  obtain ⟨extended₁, hfirst, hrounded₁⟩ := shiftToTargetExponent_nearest h₁ hbits₁
  obtain ⟨extended₂, hsecond, hrounded₂⟩ := shiftToTargetExponent_nearest h₂ hbits₂
  generalize htarget₁ : Format.binary64.targetExponent (totalExponent first e₁) = target₁ at *
  generalize htarget₂ : Format.binary64.targetExponent (totalExponent second e₂) = target₂ at *
  obtain ⟨hleast₁, hbelow₁, hfull₁⟩ :=
    target_bounds h₁.start_bounds.1 h₁.start_bounds.2 hbits₁ htarget₁
  obtain ⟨hleast₂, hbelow₂, hfull₂⟩ :=
    target_bounds h₂.start_bounds.1 h₂.start_bounds.2 hbits₂ htarget₂
  obtain rfl : target₁ = target₂ :=
    le_antisymm (target_le hleast₂ hbelow₂ hfull₁) (target_le hleast₁ hbelow₁ hfull₂)
  unfold roundWithAccuracy
  rw [hfirst, hsecond]
  dsimp only
  rw [hrounded₁.unique hrounded₂]

/-! ### Exact multiples -/

/-- The second double is the first one times a power of two, without a rounding; of a zero, it is
the same zero. -/
structure ScaledBy (power : ℤ) (x y : Float) : Prop where
  finite : x.isFinite
  isFinite_scaled : y.isFinite
  value_eq : value y = value x * 2 ^ power
  zero : value x = 0 → y = x

instance (power : ℤ) (x y : Float) : Decidable (ScaledBy power x y) :=
  decidable_of_iff (x.isFinite ∧ y.isFinite ∧ value y = value x * 2 ^ power ∧ (value x = 0 → y = x))
    ⟨fun ⟨hx, hy, hvalue, hzero⟩ ↦ ⟨hx, hy, hvalue, hzero⟩,
      fun ⟨hx, hy, hvalue, hzero⟩ ↦ ⟨hx, hy, hvalue, hzero⟩⟩

section Scaled

variable {power : ℤ} {x y x' y' : Float}

theorem scaledBy_zero (power : ℤ) : ScaledBy power 0.0 0.0 := by
  obtain ⟨hfinite, hzero⟩ := value_zero
  exact ⟨hfinite, hfinite, by rw [hzero, zero_mul], fun _ ↦ rfl⟩

theorem ScaledBy.abs (h : ScaledBy power x x') : ScaledBy power x.abs x'.abs := by
  have hpower : (0 : ℚ) < 2 ^ power := by positivity
  obtain ⟨hfinite, hsize⟩ := abs_spec h.finite
  obtain ⟨hfinite', hsize'⟩ := abs_spec h.isFinite_scaled
  refine ⟨hfinite, hfinite', ?_, fun hzero ↦ ?_⟩
  · rw [hsize, hsize', h.value_eq, abs_mul, abs_of_pos hpower]
  · rw [hsize, abs_eq_zero] at hzero
    rw [h.zero hzero]

/-- A quotient of exact multiples is the same double. -/
theorem div_scaled (hx : ScaledBy power x x') (hy : ScaledBy power y y') (hne : value y ≠ 0) :
    x' / y' = x / y := by
  have hpower : (0 : ℚ) < 2 ^ power := by positivity
  have hne' : value y' ≠ 0 := by
    rw [hy.value_eq]
    exact mul_ne_zero hne hpower.ne'
  change Float.ofModel (.pack (UnpackedFloat.div .binary64 x'.toModel.unpack y'.toModel.unpack)) =
    .ofModel (.pack (UnpackedFloat.div .binary64 x.toModel.unpack y.toModel.unpack))
  obtain ⟨m₂, e₂, hdouble₂, hunpack₂, hsize₂⟩ := exists_unpack hy.finite hne
  obtain ⟨n₂, f₂, hdouble₂', hunpack₂', hsize₂'⟩ := exists_unpack hy.isFinite_scaled hne'
  rw [hy.value_eq, signOf_mul _ hpower] at hunpack₂'
  rw [hunpack₂, hunpack₂']
  by_cases hzero : value x = 0
  · obtain ⟨sign, hunpack₁⟩ := exists_unpack_zero hx.finite hzero
    rw [hx.zero hzero, hunpack₁]
    rfl
  · obtain ⟨m₁, e₁, hdouble₁, hunpack₁, hsize₁⟩ := exists_unpack hx.finite hzero
    obtain ⟨n₁, f₁, hdouble₁', hunpack₁', hsize₁'⟩ := exists_unpack hx.isFinite_scaled (by
      rw [hx.value_eq]
      exact mul_ne_zero hzero hpower.ne')
    rw [hx.value_eq, signOf_mul _ hpower] at hunpack₁'
    rw [hunpack₁, hunpack₁']
    obtain ⟨hstart, hbits⟩ := represents_divCore hdouble₁.pos hdouble₂.pos e₁ e₂
    obtain ⟨hstart', hbits'⟩ := represents_divCore hdouble₁'.pos hdouble₂'.pos f₁ f₂
    have hquotient : (n₁ : ℚ) * 2 ^ f₁ / (n₂ * 2 ^ f₂) = m₁ * 2 ^ e₁ / (m₂ * 2 ^ e₂) := by
      rw [← hsize₁, ← hsize₂, ← hsize₁', ← hsize₂', hx.value_eq, hy.value_eq, abs_mul, abs_mul,
        mul_div_mul_right _ _ (abs_pos.mpr hpower.ne').ne']
    rw [hquotient] at hstart'
    exact congrArg (fun parts ↦ Float.ofModel (.pack parts))
      (roundWithAccuracy_congr _ hstart' hstart hbits' hbits)

/-- A product with a power of two is an exact multiple if it is rounded to itself. -/
theorem scaledBy_mul {factor : Float} (hx : x.isFinite) (hfactor : factor.isFinite)
    (hpower : value factor = 2 ^ power) (hfinite : (x * factor).isFinite)
    (hexact : value (x * factor) = value x * value factor) : ScaledBy power x (x * factor) := by
  refine ⟨hx, hfinite, hpower ▸ hexact, fun hzero ↦ ?_⟩
  have hpos : (0 : ℚ) < 2 ^ power := by positivity
  obtain ⟨sign, hunpack⟩ := exists_unpack_zero hx hzero
  obtain ⟨m, e, hdouble, hunpack', -⟩ := exists_unpack hfactor (by rw [hpower]; exact hpos.ne')
  have hsign : signOf (value factor) = .positive := if_neg (by rw [hpower]; exact hpos.le.not_gt)
  refine Eq.trans ?_ (pack_unpack x)
  change Float.ofModel (.pack (UnpackedFloat.mul .binary64 x.toModel.unpack
    factor.toModel.unpack)) = _
  rw [hunpack, hunpack', hsign]
  cases sign <;> rfl

/-- The factors of a product can change places, whatever doubles they are. -/
theorem float_mul_comm (x y : Float) : x * y = y * x := by
  have hsign (s₁ s₂ : Sign) : s₁ * s₂ = s₂ * s₁ := by cases s₁ <;> cases s₂ <;> rfl
  change Float.ofModel (.pack (UnpackedFloat.mul .binary64 x.toModel.unpack y.toModel.unpack)) =
    .ofModel (.pack (UnpackedFloat.mul .binary64 y.toModel.unpack x.toModel.unpack))
  refine congrArg (fun parts ↦ Float.ofModel (.pack parts)) ?_
  generalize x.toModel.unpack = first
  generalize y.toModel.unpack = second
  cases first <;> cases second <;> simp only [UnpackedFloat.mul, hsign, Nat.mul_comm, Int.add_comm]

end Scaled

end SpiralMachine.Number
