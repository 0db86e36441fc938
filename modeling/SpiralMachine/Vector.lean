import SpiralMachine.Phase
import SpiralMachine.Number.Decimal

/-!
# Spiral vectors

Four components, pace, rate, state and spin, with a golden-ratio norm and the
operations that keep every component a phase.
-/

set_option autoImplicit false

namespace SpiralMachine

structure SpiralVector where
  pace : Float
  rate : Float
  state : Float
  spin : Float

namespace SpiralVector

def zero : SpiralVector := ⟨0.0, 0.0, 0.0, 0.0⟩

/-- Descending powers of the inverse golden ratio, the state a machine starts from. -/
def seed : SpiralVector :=
  ⟨1.0, goldenInverse, goldenInverse * goldenInverse,
    goldenInverse * goldenInverse * goldenInverse⟩

def toList (v : SpiralVector) : List Float := [v.pace, v.rate, v.state, v.spin]

/-- The vector of four components, and none for any other number of them. -/
def ofList? : List Float → Option SpiralVector
  | [pace, rate, state, spin] => some ⟨pace, rate, state, spin⟩
  | _ => none

theorem ofList?_toList (v : SpiralVector) : ofList? v.toList = some v := rfl

def map (f : Float → Float) (v : SpiralVector) : SpiralVector :=
  ⟨f v.pace, f v.rate, f v.state, f v.spin⟩

def zipWith (f : Float → Float → Float) (v w : SpiralVector) : SpiralVector :=
  ⟨f v.pace w.pace, f v.rate w.rate, f v.state w.state, f v.spin w.spin⟩

def isZero (v : SpiralVector) : Bool := v.toList.all (· == 0.0)

def isFinite (v : SpiralVector) : Bool := v.toList.all Float.isFinite

/-- The larger of two numbers, where an undefined one never wins. -/
def larger (x y : Float) : Float :=
  if x < y || x.isNaN then y else x

/-- The largest absolute component; undefined components are passed over. -/
def maxAbs (v : SpiralVector) : Float :=
  v.toList.foldl (fun most x ↦ larger most x.abs) 0.0

/-- The square of the norm: later components weigh more. -/
def weightedSquare (v : SpiralVector) : Float :=
  v.pace * v.pace + golden * v.rate * v.rate + golden * golden * v.state * v.state
    + goldenInverse * v.spin * v.spin

/-- Neither zero, nor subnormal, nor infinite, nor undefined. -/
def isNormal (x : Float) : Bool :=
  x.isFinite && x.abs ≥ 2.2250738585072014e-308

/-- The weighted norm. Where the squares leave the normal range, the vector is divided
by its largest component first, so only a norm beyond the largest double overflows. -/
def magnitude (v : SpiralVector) : Float :=
  let squared := v.weightedSquare
  if isNormal squared || v.isZero || !v.isFinite then squared.sqrt
  else
    let largest := v.maxAbs
    largest * (v.map (· / largest)).weightedSquare.sqrt

def dot (v w : SpiralVector) : Float :=
  v.pace * w.pace + v.rate * w.rate + v.state * w.state + v.spin * w.spin

/-- One turn of the spiral: neighbouring components are mixed by the golden ratio. -/
def rotate (v : SpiralVector) : SpiralVector where
  pace := Phase.mix v.pace v.spin
  rate := Phase.mix v.pace v.rate
  state := Phase.mix v.state v.rate
  spin := Phase.mix v.state v.spin

/-- `count` turns of the spiral. -/
def rotateBy : (count : Nat) → SpiralVector → SpiralVector
  | 0, v => v
  | count + 1, v => rotateBy count v.rotate

def scale (v : SpiralVector) (factor : Float) : SpiralVector := v.map (· * factor)

/-- Every component as a phase. -/
def wrap (v : SpiralVector) : SpiralVector := v.map Phase.wrap

/-- Every component scaled by the golden ratio, as a phase. -/
def goldenWrap (v : SpiralVector) : SpiralVector := v.map Phase.scale

/-- The sum of two vectors, every component as a phase. -/
def wrappedSum (v w : SpiralVector) : SpiralVector := v.zipWith Phase.sum w

/-- `x` moved into `[low, high]`; an undefined `x` stays. -/
def clampTo (low high x : Float) : Float :=
  if x < low then low else if x > high then high else x

/-- Every component moved into `[low, high]`. -/
def clamp (v : SpiralVector) (low high : Float) : SpiralVector := v.map (clampTo low high)

/-- Every component moved into `[low, high]`, if there is such an interval. -/
def clamp? (v : SpiralVector) (low high : Float) : Option SpiralVector :=
  if low ≤ high then some (v.clamp low high) else none

instance : Add SpiralVector := ⟨zipWith (· + ·)⟩

instance : Sub SpiralVector := ⟨zipWith (· - ·)⟩

/-- The point at `t` on the way from `v` to `target`. -/
def blend (v target : SpiralVector) (t : Float) : SpiralVector :=
  v.scale (1.0 - t) + target.scale t

/-- The vector as people read it, four places after each point. -/
def describe (v : SpiralVector) : String :=
  let place (x : Float) : String := String.ofList (Number.fixed 4 x)
  s!"⟨pace {place v.pace}, rate {place v.rate}, state {place v.state}, spin {place v.spin}⟩"

end SpiralVector

end SpiralMachine
