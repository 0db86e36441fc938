/-!
# Decimal numerals

A numeral is a sign, digits and a power of ten, and stands for the double nearest to
that number, the even one of two.
-/

set_option autoImplicit false

namespace SpiralMachine.Number

/-- A numeral `± coefficient · 10 ^ power`, whole when it is written with neither point
nor exponent. -/
structure Numeral where
  negative : Bool
  coefficient : Nat
  power : Int
  whole : Bool
  deriving DecidableEq, Repr

namespace Numeral

/-- The double nearest to the numeral; it is infinite if the numeral is too large. -/
def nearest (number : Numeral) : Float :=
  let size := match number.power with
    | .ofNat power => Float.ofScientific number.coefficient false power
    | .negSucc power => Float.ofScientific number.coefficient true (power + 1)
  if number.negative then -size else size

/-- The double nearest to the numeral, if it is finite. -/
def float? (number : Numeral) : Option Float :=
  if number.nearest.isFinite then some number.nearest else none

/-- A numeral that is whole, has no sign and is below `bound`. -/
def natural? (bound : Nat) (number : Numeral) : Option Nat :=
  if number.whole && !number.negative && number.coefficient < bound then some number.coefficient
  else none

end Numeral

end SpiralMachine.Number
