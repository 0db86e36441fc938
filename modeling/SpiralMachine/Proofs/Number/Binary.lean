import Mathlib
import SpiralMachine.Number.Decimal

/-!
# Doubles as mantissas and exponents

A finite double that is not zero is `± m · 2 ^ e` for one mantissa and one exponent in the
ranges of `Representable`. Packing such a pair into bits loses nothing
(`unpack_pack`), and neither does taking any double apart (`pack_unpack`), so that whatever
is known of mantissas and exponents is known of doubles.

The parts of a packed word are read off by lemmas such as `unpackMantissa_packComponents`, which
no module of Mathlib brings along; only an import of all of it does.
-/

set_option autoImplicit false

namespace SpiralMachine.Number

open Float.Model Float.Model.UnpackedFloat

/-- The mantissa and the exponent of a finite double that is not zero. -/
structure Representable (mantissa : Nat) (exponent : Int) : Prop where
  pos : 0 < mantissa
  lt : mantissa < 2 ^ 53
  le_exponent : -1074 ≤ exponent
  exponent_le : exponent ≤ 971
  normal : 2 ^ 52 ≤ mantissa ∨ exponent = -1074

/-! ### The parts of a word -/

/-- The bit that words leave out stands before the mantissa. -/
theorem toNat_implicit_append (mantissa : BitVec 52) :
    (1#1 ++ mantissa).toNat = 2 ^ 52 + mantissa.toNat := by
  rw [BitVec.toNat_append, ← Nat.shiftLeft_add_eq_or_of_lt mantissa.isLt]
  simp [Nat.shiftLeft_eq]

/-! ### Packing -/

/-- A full mantissa is packed without its first bit. -/
theorem pack_normal (sign : Sign) {mantissa : Nat} {exponent : Int} (hpos : 0 < mantissa)
    (hle : 2 ^ 52 ≤ mantissa) (hlt : mantissa < 2 ^ 53) (hexponent : -1074 ≤ exponent)
    (hmax : exponent ≤ 971) :
    UnpackedFloat.pack .binary64 (.finite sign mantissa exponent hpos) =
      packComponents .binary64 sign (BitVec.ofNat 11 (exponent + 1075).toNat)
        (BitVec.ofNat 52 mantissa) := by
  have hlog : mantissa.log2 = 52 := by
    have hlow := (Nat.le_log2 hpos.ne').mpr hle
    have hhigh := (Nat.log2_lt hpos.ne').mpr hlt
    omega
  have hbiased : exponent + Format.binary64.exponentBias +
      Format.binary64.mantissaBitsWithoutImplicit = exponent + 1075 := by
    show exponent + 1023 + 52 = _
    omega
  have hfits : ¬2 ^ Format.binary64.exponentBits ≤ (exponent + 1075).toNat + 1 := by
    show ¬2 ^ 11 ≤ _
    omega
  rw [UnpackedFloat.pack]
  dsimp only
  rw [hbiased, if_neg hfits, hlog]
  exact if_pos rfl

/-- A small mantissa is packed as it is. -/
theorem pack_subnormal (sign : Sign) {mantissa : Nat} (hpos : 0 < mantissa)
    (hlt : mantissa < 2 ^ 52) :
    UnpackedFloat.pack .binary64 (.finite sign mantissa (-1074) hpos) =
      packComponents .binary64 sign 0#11 (BitVec.ofNat 52 mantissa) := by
  have hlog : ¬mantissa.log2 + 1 = Format.binary64.mantissaBits := by
    have hsmall := (Nat.log2_lt hpos.ne').mpr hlt
    show ¬mantissa.log2 + 1 = 53
    omega
  rw [UnpackedFloat.pack]
  dsimp only
  rw [if_neg (by decide), if_neg hlog]

/-- What is packed can be taken apart again. -/
theorem unpack_pack (sign : Sign) {mantissa : Nat} {exponent : Int}
    (h : Representable mantissa exponent) :
    (Float.Model.pack (.finite sign mantissa exponent h.pos)).unpack =
      .finite sign mantissa exponent h.pos := by
  obtain ⟨hpos, hlt, hexponent, hmax, hnormal⟩ := h
  show UnpackedFloat.unpack .binary64 (UnpackedFloat.pack .binary64 _) = _
  by_cases hle : 2 ^ 52 ≤ mantissa
  · have hbiased : (BitVec.ofNat 11 (exponent + 1075).toNat).toNat =
        (exponent + 1075).toNat := by
      rw [BitVec.toNat_ofNat, Nat.mod_eq_of_lt (by omega)]
    have hlow : BitVec.ofNat 11 (exponent + 1075).toNat ≠ 0#11 := by
      rw [ne_eq, ← BitVec.toNat_inj, hbiased]
      simp
      omega
    have hhigh : BitVec.ofNat 11 (exponent + 1075).toNat ≠ -1#11 := by
      rw [ne_eq, ← BitVec.toNat_inj, hbiased]
      simp
      omega
    have hmantissa : (1#1 ++ BitVec.ofNat 52 mantissa).toNat = mantissa := by
      rw [toNat_implicit_append, BitVec.toNat_ofNat]
      omega
    rw [pack_normal sign hpos hle hlt hexponent hmax, UnpackedFloat.unpack]
    simp only [unpackSign_packComponents, unpackExponent_packComponents,
      unpackMantissa_packComponents, Sign.ofBitVec_toBitVec, if_neg hhigh, if_neg hlow, hbiased,
      hmantissa]
    congr 1
    show ((exponent + 1075).toNat : Int) - (1023 + 52) = exponent
    omega
  · obtain rfl : exponent = -1074 := hnormal.resolve_left hle
    have hvalue : (BitVec.ofNat 52 mantissa).toNat = mantissa := by
      rw [BitVec.toNat_ofNat, Nat.mod_eq_of_lt (by omega)]
    have hmantissa : BitVec.ofNat 52 mantissa ≠ 0#52 := by
      rw [ne_eq, ← BitVec.toNat_inj, hvalue]
      exact hpos.ne'
    rw [pack_subnormal sign hpos (by omega), UnpackedFloat.unpack]
    simp only [unpackSign_packComponents, unpackExponent_packComponents,
      unpackMantissa_packComponents, Sign.ofBitVec_toBitVec, dif_neg hmantissa, hvalue]
    rfl

/-! ### Taking a double apart -/

/-- A mantissa and exponent that a word is taken apart into are in range. -/
theorem representable_of_unpack_word {word : BitVec Format.binary64.numBits} {sign : Sign}
    {mantissa : Nat} {exponent : Int} {hpos : 0 < mantissa}
    (h : UnpackedFloat.unpack .binary64 word = .finite sign mantissa exponent hpos) :
    Representable mantissa exponent := by
  have hsize : (unpackMantissa word).toNat < 2 ^ 52 := (unpackMantissa word).isLt
  have hexponent : (unpackExponent word).toNat < 2 ^ 11 := (unpackExponent word).isLt
  rw [UnpackedFloat.unpack] at h
  dsimp only at h
  split at h
  · split at h <;> cases h
  · rename_i hlast
    split at h
    · rename_i hfirst
      rw [hfirst] at h
      split at h
      · cases h
      · rename_i hmantissa
        cases h
        have hpos : 0 < (unpackMantissa word).toNat :=
          Nat.pos_of_ne_zero fun h ↦ hmantissa (BitVec.eq_of_toNat_eq h)
        exact ⟨hpos, by omega, by decide, by decide, .inr rfl⟩
    · rename_i hfirst
      cases h
      have hlow : (unpackExponent word).toNat ≠ 0 := fun h ↦ hfirst (BitVec.eq_of_toNat_eq h)
      have hhigh : (unpackExponent word).toNat ≠ 2047 := fun h ↦ hlast (BitVec.eq_of_toNat_eq h)
      have hmantissa := toNat_implicit_append (unpackMantissa word)
      have hbias : ((Format.binary64.exponentBias : Nat) : Int) +
          (Format.binary64.mantissaBitsWithoutImplicit : Nat) = 1075 := rfl
      rw [hbias]
      exact ⟨by omega, by omega, by omega, by omega, .inl (by omega)⟩

/-- A double is packed of what it is taken apart into. -/
theorem pack_unpack (x : Float) : .ofModel (.pack x.toModel.unpack) = x := by
  obtain ⟨⟨bits, hvalid⟩⟩ := x
  have hbits := pack_unpack_of_valid hvalid
  unfold Float.Model.pack Float.Model.unpack
  simp only [hbits]

/-- The mantissa and the exponent of a double are in range. -/
theorem representable_of_unpack {x : Float} {sign : Sign} {mantissa : Nat} {exponent : Int}
    {hpos : 0 < mantissa} (h : x.toModel.unpack = .finite sign mantissa exponent hpos) :
    Representable mantissa exponent :=
  representable_of_unpack_word h

end SpiralMachine.Number
