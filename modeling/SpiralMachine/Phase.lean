import SpiralMachine.Number.Remainder

/-!
# Golden constants and phases

A phase is an angle in `[0, turn)`. Adding, scaling by the golden ratio and mixing
phases is done on doubles of any size: where the plain sum or product overflows, its
terms are wrapped first.
-/

set_option autoImplicit false

namespace SpiralMachine

/-- The golden ratio. -/
def golden : Float := 1.618033988749895

/-- The reciprocal of the golden ratio, `golden - 1`. -/
def goldenInverse : Float := 0.6180339887498949

/-- A full turn in radians. -/
def turn : Float := 6.283185307179586

namespace Phase

/-- The angle in `[0, turn)` that differs from `x` by whole turns. Moving up a tiny
negative remainder can give `turn` itself, which is the angle zero. -/
def wrap (x : Float) : Float :=
  let residue := Number.leastResidue x turn
  if residue ≥ turn then 0.0 else residue

/-- The phase of `x + y`. -/
def sum (x y : Float) : Float :=
  let total := x + y
  if total.isFinite then wrap total else wrap (wrap x + wrap y)

/-- The phase of `x · golden`, taken as `x + x · goldenInverse` when the product
overflows. -/
def scale (x : Float) : Float :=
  let product := x * golden
  if product.isFinite then wrap product else wrap (wrap x + wrap (x * goldenInverse))

/-- The phase of `x · goldenInverse + y · golden`. -/
def mix (x y : Float) : Float :=
  let total := x * goldenInverse + y * golden
  if total.isFinite then wrap total else wrap (wrap (x * goldenInverse) + scale y)

end Phase

end SpiralMachine
