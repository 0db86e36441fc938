import Mathlib.Algebra.Order.Field.Power
import Mathlib.Data.Rat.Defs
import Mathlib.Tactic.FieldSimp
import Mathlib.Tactic.Linarith
import Mathlib.Tactic.NormNum
import Mathlib.Tactic.Positivity
import SpiralMachine.Proofs.Number.Binary

/-!
# Rounding to doubles

`RoundsTo` is the interval of the numbers that round to a double: half the way to its
neighbours on either side, with the ends if its mantissa is even. `roundWithAccuracy_eq` says
that the rounding of arithmetic results, which knows a number by a mantissa and two more
bits, gives each number of the interval that double.

The two bits are read by `Represents`. They are kept by each shift (`represents_shiftRight`),
and the mantissa they are rounded to is the nearest whole number, the even one of two
(`nearestEven_roundedMantissa`), of which there is one only (`NearestEven.unique`).
-/

set_option autoImplicit false

namespace SpiralMachine.Number

open Float.Model Float.Model.UnpackedFloat

/-- A unit that is some places greater than another. -/
theorem two_zpow_add (places : ℕ) (target : ℤ) :
    (2 : ℚ) ^ (places + target) = 2 ^ places * 2 ^ target := by
  rw [zpow_add₀ two_ne_zero, zpow_natCast]

/-! ### The nearest whole number -/

/-- A whole number nearest to a number, the even one of two. -/
structure NearestEven (whole : ℕ) (x : ℚ) : Prop where
  above : x - whole ≤ 1 / 2
  below : whole - x ≤ 1 / 2
  strict : whole % 2 = 1 → x - whole < 1 / 2 ∧ whole - x < 1 / 2

/-- There is one nearest whole number. -/
theorem NearestEven.unique {whole other : ℕ} {x : ℚ} (h : NearestEven whole x)
    (hother : NearestEven other x) : whole = other := by
  -- two of them would be neighbours, half way from the number, and one of them odd
  have hneighbour : ∀ {low high : ℕ}, NearestEven low x → NearestEven high x →
      ¬low < high := by
    intro low high hlow hhigh hlt
    have hgap : (low : ℚ) + 1 ≤ high := by exact_mod_cast hlt
    have hup := hlow.above
    have hdown := hhigh.below
    have heq : low + 1 = high := by
      have : (high : ℚ) ≤ low + 1 := by linarith
      have : high ≤ low + 1 := by exact_mod_cast this
      omega
    rcases Nat.mod_two_eq_zero_or_one low with hparity | hparity
    · have := (hhigh.strict (by omega)).2
      linarith
    · have := (hlow.strict hparity).1
      linarith
  have hle := hneighbour h hother
  have hge := hneighbour hother h
  omega

/-! ### A mantissa and two bits -/

/-- What an extended mantissa tells of a number: its whole part, and whether its fraction is
zero, one half, or on which side of one half. -/
def Represents (extended : ExtendedMantissa) (x : ℚ) : Prop :=
  match extended.roundBit, extended.stickyBit with
  | false, false => x = extended.mantissa
  | false, true => extended.mantissa < x ∧ x < extended.mantissa + 1 / 2
  | true, false => x = extended.mantissa + 1 / 2
  | true, true => extended.mantissa + 1 / 2 < x ∧ x < extended.mantissa + 1

/-- The mantissa is the whole part. -/
theorem Represents.bounds {extended : ExtendedMantissa} {x : ℚ} (h : Represents extended x) :
    (extended.mantissa : ℚ) ≤ x ∧ x < extended.mantissa + 1 := by
  unfold Represents at h
  split at h
  · constructor <;> linarith
  · constructor <;> linarith [h.1, h.2]
  · constructor <;> linarith
  · constructor <;> linarith [h.1, h.2]

/-- A shift by one place halves the number. -/
theorem represents_shiftRightOne {extended : ExtendedMantissa} {x : ℚ}
    (h : Represents extended x) : Represents extended.shiftRightOne (x / 2) := by
  obtain ⟨mantissa, roundBit, stickyBit⟩ := extended
  have hhalves : ((2 * (mantissa / 2) + mantissa % 2 : ℕ) : ℚ) = mantissa :=
    congrArg Nat.cast (Nat.div_add_mod mantissa 2)
  push_cast at hhalves
  unfold Represents ExtendedMantissa.shiftRightOne
  rcases Nat.mod_two_eq_zero_or_one mantissa with hparity | hparity
  · have hbit : (mantissa % 2 != 0) = false := by rw [hparity]; rfl
    rw [hparity, Nat.cast_zero] at hhalves
    cases roundBit <;> cases stickyBit <;> simp only [Represents] at h <;>
      simp only [hbit, Bool.or_false, Bool.or_true]
    · linarith
    · constructor <;> linarith
    · constructor <;> linarith
    · constructor <;> linarith
  · have hbit : (mantissa % 2 != 0) = true := by rw [hparity]; rfl
    rw [hparity, Nat.cast_one] at hhalves
    cases roundBit <;> cases stickyBit <;> simp only [Represents] at h <;>
      simp only [hbit, Bool.or_false, Bool.or_true]
    · linarith
    · constructor <;> linarith
    · constructor <;> linarith
    · constructor <;> linarith

/-- A shift by some places divides the number by so many powers of two. -/
theorem represents_shiftRight {extended : ExtendedMantissa} {x : ℚ}
    (h : Represents extended x) (places : ℕ) :
    Represents (extended >>> places) (x / 2 ^ places) := by
  show Represents (places.repeat ExtendedMantissa.shiftRightOne extended) _
  induction places with
  | zero => simpa [Nat.repeat] using h
  | succ places ih =>
    have hnext := represents_shiftRightOne ih
    rwa [div_div, ← pow_succ] at hnext

/-- The two bits decide which whole number is nearest. -/
theorem nearestEven_roundedMantissa {extended : ExtendedMantissa} {x : ℚ}
    (h : Represents extended x) : NearestEven extended.roundedMantissa x := by
  obtain ⟨mantissa, roundBit, stickyBit⟩ := extended
  cases roundBit <;> cases stickyBit <;>
    simp only [Represents, ExtendedMantissa.roundedMantissa, ExtendedMantissa.accuracy,
      Accuracy.roundToNearestEven] at h ⊢
  · exact ⟨by linarith, by linarith, fun _ ↦ ⟨by linarith, by linarith⟩⟩
  · exact ⟨by linarith, by linarith, fun _ ↦ ⟨by linarith, by linarith⟩⟩
  · -- half way the two are equally near, and the result is even
    have hodd : ¬(mantissa + mantissa % 2) % 2 = 1 := by omega
    rcases Nat.mod_two_eq_zero_or_one mantissa with hparity | hparity <;>
      rw [hparity] at hodd ⊢
    · refine ⟨?_, ?_, fun h ↦ absurd h hodd⟩ <;> push_cast <;> linarith
    · refine ⟨?_, ?_, fun h ↦ absurd h hodd⟩ <;> push_cast <;> linarith
  · refine ⟨?_, ?_, fun _ ↦ ⟨?_, ?_⟩⟩ <;> push_cast <;> linarith

/-! ### The interval of a double -/

/-- How far the interval of a double reaches below it, in units of the last bit. Below a power
of two the next double is only half a unit away, unless the exponent is the smallest. -/
def lowerGap (mantissa : ℕ) (exponent : ℤ) : ℚ :=
  if mantissa = 2 ^ 52 ∧ exponent ≠ -1074 then 1 / 4 else 1 / 2

/-- The numbers that round to a double: those up to half way to its neighbours, and the
ends if its mantissa is even. -/
structure RoundsTo (mantissa : ℕ) (exponent : ℤ) (value : ℚ) : Prop where
  low : (mantissa - lowerGap mantissa exponent) * 2 ^ exponent ≤ value
  high : value ≤ (mantissa + 1 / 2) * 2 ^ exponent
  strict : mantissa % 2 = 1 →
    (mantissa - lowerGap mantissa exponent) * 2 ^ exponent < value ∧
      value < (mantissa + 1 / 2) * 2 ^ exponent

theorem lowerGap_pos (mantissa : ℕ) (exponent : ℤ) : 0 < lowerGap mantissa exponent := by
  unfold lowerGap
  split <;> norm_num

theorem lowerGap_le (mantissa : ℕ) (exponent : ℤ) : lowerGap mantissa exponent ≤ 1 / 2 := by
  unfold lowerGap
  split <;> norm_num

/-- A double is in its own interval. -/
theorem roundsTo_self (mantissa : ℕ) (exponent : ℤ) :
    RoundsTo mantissa exponent (mantissa * 2 ^ exponent) := by
  have hunit : (0 : ℚ) < 2 ^ exponent := by positivity
  have hgap := lowerGap_pos mantissa exponent
  have hlow : (mantissa - lowerGap mantissa exponent) * (2 : ℚ) ^ exponent <
      mantissa * 2 ^ exponent := mul_lt_mul_of_pos_right (by linarith) hunit
  have hhigh : (mantissa : ℚ) * 2 ^ exponent < (mantissa + 1 / 2) * 2 ^ exponent :=
    mul_lt_mul_of_pos_right (by linarith) hunit
  exact ⟨hlow.le, hhigh.le, fun _ ↦ ⟨hlow, hhigh⟩⟩

/-- Between which powers of two the interval of a double lies. -/
theorem RoundsTo.range {mantissa : ℕ} {exponent : ℤ} {value : ℚ}
    (hdouble : Representable mantissa exponent) (h : RoundsTo mantissa exponent value) :
    (2 : ℚ) ^ (exponent - 1) ≤ value ∧ value < 2 ^ (exponent + 53) := by
  have hpos : (1 : ℚ) ≤ mantissa := by exact_mod_cast hdouble.pos
  have hlt : (mantissa : ℚ) + 1 ≤ 2 ^ 53 := by exact_mod_cast hdouble.lt
  have hgap := lowerGap_le mantissa exponent
  have hunit : (0 : ℚ) < 2 ^ exponent := by positivity
  constructor
  · calc (2 : ℚ) ^ (exponent - 1) = 1 / 2 * 2 ^ exponent := by
          rw [zpow_sub_one₀ two_ne_zero, mul_comm, one_div]
      _ ≤ (mantissa - lowerGap mantissa exponent) * 2 ^ exponent :=
          mul_le_mul_of_nonneg_right (by linarith) hunit.le
      _ ≤ value := h.low
  · calc value ≤ (mantissa + 1 / 2) * 2 ^ exponent := h.high
      _ < 2 ^ 53 * 2 ^ exponent := mul_lt_mul_of_pos_right (by linarith) hunit
      _ = 2 ^ (exponent + 53) := by
          rw [zpow_add₀ two_ne_zero, mul_comm]
          rfl

/-- In units of the last bit: unless the number is below a power of two that it rounds to,
the mantissa is the whole number nearest to it. -/
theorem RoundsTo.nearestEven {mantissa : ℕ} {exponent : ℤ} {value : ℚ}
    (h : RoundsTo mantissa exponent value) : NearestEven mantissa (value / 2 ^ exponent) := by
  have hunit : (0 : ℚ) < 2 ^ exponent := by positivity
  have hgap := lowerGap_le mantissa exponent
  have hlow := (le_div_iff₀ hunit).mpr h.low
  have hhigh := (div_le_iff₀ hunit).mpr h.high
  refine ⟨by linarith, by linarith, fun hodd ↦ ?_⟩
  have hlow := (lt_div_iff₀ hunit).mpr (h.strict hodd).1
  have hhigh := (div_lt_iff₀ hunit).mpr (h.strict hodd).2
  constructor <;> linarith

/-- The exponent that rounding aims at. -/
theorem targetExponent_eq (mantissa : ℕ) (exponent : ℤ) :
    Format.binary64.targetExponent (totalExponent mantissa exponent) =
      max (mantissa.log2 + exponent - 52) (-1074) := by
  show max ((mantissa.log2 : ℤ) + 1 + exponent - ((1 + 52 : ℕ) : ℤ)) (3 - 2 ^ 10 - 53) = _
  congr 1
  omega

/-- Between which powers of two a number lies, by the mantissa it starts with. -/
theorem log2_bounds {mantissa : ℕ} {exponent : ℤ} {value : ℚ} (hpos : mantissa ≠ 0)
    (hlow : (mantissa : ℚ) ≤ value / 2 ^ exponent)
    (hhigh : value / 2 ^ exponent < mantissa + 1) :
    (2 : ℚ) ^ (mantissa.log2 + exponent) ≤ value ∧
      value < (2 : ℚ) ^ (mantissa.log2 + exponent + 1) := by
  have hunit : (0 : ℚ) < 2 ^ exponent := by positivity
  have hfloor : ((2 ^ mantissa.log2 : ℕ) : ℚ) ≤ mantissa :=
    Nat.cast_le.mpr (Nat.log2_self_le hpos)
  have hceil : (mantissa : ℚ) + 1 ≤ ((2 ^ (mantissa.log2 + 1) : ℕ) : ℚ) := by
    exact_mod_cast Nat.lt_log2_self
  push_cast at hfloor hceil
  constructor
  · rw [two_zpow_add, ← le_div_iff₀ hunit]
    exact hfloor.trans hlow
  · rw [add_right_comm, zpow_add₀ two_ne_zero, ← div_lt_iff₀ hunit]
    exact_mod_cast hhigh.trans_le hceil

/-- A number below the power of two that it rounds to: on the finer grid there the next power
of two is nearest. -/
theorem RoundsTo.eq_power_of_lt {mantissa : ℕ} {exponent : ℤ} {value : ℚ}
    (h : RoundsTo mantissa exponent value) (hlarge : 2 ^ 52 ≤ mantissa)
    (hexponent : exponent ≠ -1074) (hlt : value < 2 ^ (52 + exponent)) :
    mantissa = 2 ^ 52 ∧ NearestEven (2 ^ 53) (value / 2 ^ (exponent - 1)) := by
  have hunit : (0 : ℚ) < 2 ^ exponent := by positivity
  have hlow := (le_div_iff₀ hunit).mpr h.low
  have hhigh : value / 2 ^ exponent < 2 ^ 52 := by
    rw [div_lt_iff₀ hunit]
    rw [zpow_add₀ two_ne_zero] at hlt
    exact_mod_cast hlt
  have hpower : mantissa = 2 ^ 52 := by
    have hgap := lowerGap_le mantissa exponent
    have hnear : (mantissa : ℚ) < 2 ^ 52 + 1 := by linarith
    have hnear : mantissa < 2 ^ 52 + 1 := by exact_mod_cast hnear
    omega
  have hgap : lowerGap mantissa exponent = 1 / 4 := if_pos ⟨hpower, hexponent⟩
  have hdouble : value / 2 ^ (exponent - 1) = 2 * (value / 2 ^ exponent) := by
    rw [zpow_sub_one₀ two_ne_zero]
    field_simp
  rw [hgap, hpower] at hlow
  push_cast at hlow
  rw [hdouble]
  refine ⟨hpower, ?_, ?_, fun hodd ↦ by omega⟩ <;> push_cast <;> linarith

/-- A number that rounds to a full mantissa is at least half the power of two it starts with. -/
theorem RoundsTo.power_le {mantissa : ℕ} {exponent : ℤ} {value : ℚ}
    (h : RoundsTo mantissa exponent value) (hlarge : 2 ^ 52 ≤ mantissa) :
    (2 : ℚ) ^ (exponent + 51) ≤ value := by
  have hunit : (0 : ℚ) < 2 ^ exponent := by positivity
  have hgap := lowerGap_le mantissa exponent
  have hhalf : (2 : ℚ) ^ (51 : ℤ) + 1 / 2 ≤ 2 ^ 52 := by norm_num
  have hlarge : (2 : ℚ) ^ 52 ≤ mantissa := by exact_mod_cast hlarge
  rw [add_comm, zpow_add₀ two_ne_zero]
  exact le_trans (mul_le_mul_of_nonneg_right (by linarith) hunit.le) h.low

/-- A number between two powers of two puts their exponents in order. -/
theorem lt_of_power_le {low high : ℤ} {value : ℚ} (hle : (2 : ℚ) ^ low ≤ value)
    (hlt : value < 2 ^ high) : low < high :=
  (zpow_lt_zpow_iff_right₀ one_lt_two).mp (hle.trans_lt hlt)

/-- The exponent that rounding aims at, for a number of an interval: it is that of the double,
and the mantissa is nearest; or the number is below a power of two, the exponent is one less,
and the next power of two is nearest. -/
theorem RoundsTo.target {mantissa start : ℕ} {exponent scale : ℤ} {value : ℚ}
    (h : RoundsTo mantissa exponent value) (hdouble : Representable mantissa exponent)
    (hlow : (start : ℚ) ≤ value / 2 ^ scale) (hhigh : value / 2 ^ scale < start + 1)
    (hbits : 52 ≤ start.log2 ∨ scale ≤ -1074) :
    let target := Format.binary64.targetExponent (totalExponent start scale)
    (target = exponent ∧ NearestEven mantissa (value / 2 ^ target)) ∨
      (target + 1 = exponent ∧ mantissa = 2 ^ 52 ∧ NearestEven (2 ^ 53) (value / 2 ^ target)) := by
  have hbelow := (h.range hdouble).2
  have hbounds (hpos : start ≠ 0) := log2_bounds hpos hlow hhigh
  have hsmall := hdouble.le_exponent
  dsimp only
  rw [targetExponent_eq]
  by_cases hsmallest : exponent = -1074
  · -- at the smallest exponent there is nothing to aim at below
    refine .inl ?_
    have htarget : max ((start.log2 : ℤ) + scale - 52) (-1074) = exponent := by
      rcases Nat.eq_zero_or_pos start with hzero | hpos
      · subst hzero
        simp only [Nat.log2_zero] at hbits ⊢
        omega
      · have hlog := lt_of_power_le (hbounds hpos.ne').1 hbelow
        omega
    rw [htarget]
    exact ⟨rfl, h.nearestEven⟩
  · have hlarge : 2 ^ 52 ≤ mantissa := hdouble.normal.resolve_right hsmallest
    have habove := h.power_le hlarge
    have hpos : start ≠ 0 := by
      rintro rfl
      have hscale : scale ≤ -1074 := hbits.resolve_left (by simp)
      have hlt : value < 2 ^ scale := by
        have := (div_lt_iff₀ (by positivity : (0 : ℚ) < 2 ^ scale)).mp hhigh
        simpa using this
      have := lt_of_power_le habove hlt
      omega
    obtain ⟨hfloor, hceil⟩ := hbounds hpos
    have hupper := lt_of_power_le hfloor hbelow
    have hlower := lt_of_power_le habove hceil
    rcases le_or_gt ((2 : ℚ) ^ (52 + exponent)) value with hfull | hshort
    · refine .inl ?_
      have htarget : max ((start.log2 : ℤ) + scale - 52) (-1074) = exponent := by
        have := lt_of_power_le hfull hceil
        omega
      rw [htarget]
      exact ⟨rfl, h.nearestEven⟩
    · obtain ⟨hround, hnearest⟩ := h.eq_power_of_lt hlarge hsmallest hshort
      have htarget : max ((start.log2 : ℤ) + scale - 52) (-1074) = exponent - 1 := by
        have := lt_of_power_le hfloor hshort
        omega
      rw [htarget]
      exact .inr ⟨by omega, hround, hnearest⟩

/-! ### Rounding a result -/

/-- A mantissa that fits stays as it is. -/
theorem shiftToTargetExponent_of_lt {mantissa : ℕ} {exponent : ℤ} (hlt : mantissa < 2 ^ 53)
    (hexponent : -1074 ≤ exponent) :
    shiftToTargetExponent .binary64 mantissa exponent .exact =
      (⟨mantissa, false, false⟩, exponent) := by
  have hlog : mantissa.log2 ≤ 52 := by
    rcases Nat.eq_zero_or_pos mantissa with rfl | hpos
    · simp
    · exact Nat.lt_succ_iff.mp ((Nat.log2_lt hpos.ne').mpr hlt)
  have hshift : (max ((mantissa.log2 : ℤ) + exponent - 52) (-1074) - exponent).toNat = 0 := by
    omega
  unfold shiftToTargetExponent shiftToExponent
  dsimp only
  rw [targetExponent_eq, hshift]
  exact congrArg _ (Int.add_zero _)

/-- A mantissa that was rounded up to the next power of two is halved. -/
theorem shiftToTargetExponent_carry {exponent : ℤ} (hexponent : -1074 ≤ exponent) :
    shiftToTargetExponent .binary64 (2 ^ 53) exponent .exact =
      (⟨2 ^ 52, false, false⟩, exponent + 1) := by
  have hshift : (max (((2 ^ 53 : ℕ).log2 : ℤ) + exponent - 52) (-1074) - exponent).toNat = 1 := by
    rw [Nat.log2_two_pow]
    omega
  unfold shiftToTargetExponent shiftToExponent
  dsimp only
  rw [targetExponent_eq, hshift]
  rfl

/-- The first shift reaches the exponent aimed at. Its mantissa is rounded to the whole number
nearest to the number there. -/
theorem shiftToTargetExponent_nearest {start : ℕ} {scale : ℤ} {accuracy : Accuracy} {value : ℚ}
    (hstart : Represents (.ofMantissaAndAccuracy start accuracy) (value / 2 ^ scale))
    (hbits : 52 ≤ start.log2 ∨ scale ≤ -1074) :
    let target := Format.binary64.targetExponent (totalExponent start scale)
    ∃ extended, shiftToTargetExponent .binary64 start scale accuracy = (extended, target) ∧
      NearestEven extended.roundedMantissa (value / 2 ^ target) := by
  dsimp only
  generalize hgoal : Format.binary64.targetExponent (totalExponent start scale) = target
  have hreach : scale + (target - scale).toNat = target := by
    rw [targetExponent_eq] at hgoal
    omega
  refine ⟨ExtendedMantissa.ofMantissaAndAccuracy start accuracy >>> (target - scale).toNat,
    ?_, ?_⟩
  · unfold shiftToTargetExponent shiftToExponent
    dsimp only
    rw [hgoal, hreach]
  · have hrounded := nearestEven_roundedMantissa
      (represents_shiftRight hstart (target - scale).toNat)
    rwa [div_div, ← zpow_natCast, ← zpow_add₀ two_ne_zero, hreach] at hrounded

/-- A number that is known by a mantissa and two more bits lies between it and the next. -/
theorem Represents.start_bounds {start : ℕ} {accuracy : Accuracy} {x : ℚ}
    (h : Represents (.ofMantissaAndAccuracy start accuracy) x) :
    (start : ℚ) ≤ x ∧ x < start + 1 := by
  have hwhole : (ExtendedMantissa.ofMantissaAndAccuracy start accuracy).mantissa = start := by
    cases accuracy with
    | exact => rfl
    | inexact order => cases order <;> rfl
  have hbounds := h.bounds
  rwa [hwhole] at hbounds

/-- A number of the interval of a double, known by a mantissa and two more bits, is rounded
to that double. -/
theorem roundWithAccuracy_eq (sign : Sign) {mantissa start : ℕ} {exponent scale : ℤ}
    {accuracy : Accuracy} {value : ℚ} (hdouble : Representable mantissa exponent)
    (h : RoundsTo mantissa exponent value)
    (hstart : Represents (.ofMantissaAndAccuracy start accuracy) (value / 2 ^ scale))
    (hbits : 52 ≤ start.log2 ∨ scale ≤ -1074) :
    roundWithAccuracy .binary64 sign start scale accuracy =
      .finite sign mantissa exponent hdouble.pos := by
  obtain ⟨hlow, hhigh⟩ := hstart.start_bounds
  have htarget := h.target hdouble hlow hhigh hbits
  obtain ⟨extended, hfirst, hrounded⟩ := shiftToTargetExponent_nearest hstart hbits
  dsimp only at htarget hfirst hrounded
  generalize hgoal : Format.binary64.targetExponent (totalExponent start scale) = target at *
  have hleast : -1074 ≤ target := by
    rw [targetExponent_eq] at hgoal
    omega
  unfold roundWithAccuracy
  rw [hfirst]
  dsimp only
  rcases htarget with ⟨rfl, hnearest⟩ | ⟨rfl, rfl, hnearest⟩
  · rw [hrounded.unique hnearest, shiftToTargetExponent_of_lt hdouble.lt hleast]
    exact dif_neg hdouble.pos.ne'
  · rw [hrounded.unique hnearest, shiftToTargetExponent_carry hleast]
    exact dif_neg hdouble.pos.ne'

end SpiralMachine.Number
