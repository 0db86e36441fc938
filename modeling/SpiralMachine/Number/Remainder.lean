/-!
# Exact remainders of doubles

The remainder of two doubles is computed on their mantissas, brought to one
exponent, so no step of it rounds. `remainder` keeps the sign of the dividend;
`leastResidue` moves it into `[0, modulus)`, where the final addition may round.
-/

set_option autoImplicit false

namespace SpiralMachine.Number

open Float.Model

/-- The part of `x` left over after removing whole multiples of `modulus`, with
the sign of `x`. It is computed exactly, and there is none for an infinite or
undefined `x`, nor for a modulus that is zero or undefined. -/
def remainder (x modulus : Float) : Float :=
  match x.toModel.unpack, modulus.toModel.unpack with
  | .finite sign m e _, .finite _ n f _ =>
    let common := min e f
    let left := (m <<< (e - common).toNat) % (n <<< (f - common).toNat)
    .ofModel (.pack (UnpackedFloat.normalize Format.binary64 (sign.apply left) common sign))
  | .zero _, .finite .. => x
  | .zero _, .infinity _ => x
  | .finite .., .infinity _ => x
  | _, _ => .ofModel (.pack .notANumber)

/-- The remainder moved up by `modulus` when it is negative. -/
def leastResidue (x modulus : Float) : Float :=
  let left := remainder x modulus
  if left < 0.0 then left + modulus.abs else left

end SpiralMachine.Number
