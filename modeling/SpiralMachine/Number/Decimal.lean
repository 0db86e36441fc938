/-!
# Decimal text of doubles

A finite double is `m · 2 ^ e`. The reals that round to it form an interval, and
the fewest digits that read back are found by walking the grids of one, two, three
and more digits and testing the two grid points beside the number, all in natural
numbers. How the digits are laid out is a `Layout`, so that JSON text and plain
text share one search. `fixed` writes a given number of places instead.
-/

set_option autoImplicit false

namespace SpiralMachine.Number

open Float.Model

/-- Which neighbour is taken when a number lies halfway between two grid points. -/
inductive Tie where
  | even
  | up
  deriving DecidableEq, Repr

/-- Significant decimal digits: the number is `0.d₁d₂… · 10 ^ (lead + 1)`, so `lead`
is the power of ten of the first digit. -/
structure Digits where
  digits : List Char
  lead : Int
  deriving DecidableEq, Repr

def decimal (n : Nat) : List Char :=
  Nat.toDigits 10 n

/-- A positive fraction `top / bottom` with the interval of reals that round to the
same double, all over one denominator; the ends belong to it when `closed`. -/
structure Neighbourhood where
  low : Nat
  middle : Nat
  high : Nat
  bottom : Nat
  closed : Bool

/-- The gap below a power of two is half the gap above it, except for the smallest
normal number. The ends round to even mantissas only. -/
def neighbourhood (mantissa : Nat) (exponent : Int) : Neighbourhood :=
  let below := if mantissa = Nat.pow 2 52 ∧ exponent ≠ -1074 then 1 else 2
  let grow := Nat.pow 2 (exponent - 2).toNat
  { low := (4 * mantissa - below) * grow
    middle := 4 * mantissa * grow
    high := (4 * mantissa + 2) * grow
    bottom := Nat.pow 2 (2 - exponent).toNat
    closed := mantissa % 2 = 0 }

/-- Whether `point / scale` lies in the interval. -/
def Neighbourhood.holds (around : Neighbourhood) (point scale : Nat) : Bool :=
  if around.closed then
    around.low * scale ≤ point * around.bottom && point * around.bottom ≤ around.high * scale
  else
    around.low * scale < point * around.bottom && point * around.bottom < around.high * scale

/-- The power of ten of the first digit of `top / bottom`. -/
def leadingPower (top bottom : Nat) : Int :=
  if bottom ≤ top then
    ((decimal (top / bottom)).length : Int) - 1
  else
    let width := (decimal (bottom / top)).length
    if bottom ≤ top * Nat.pow 10 (width - 1) then 1 - (width : Int) else -(width : Int)

/-- `value / unit` rounded to a whole number. -/
def roundedQuotient (tie : Tie) (value unit : Nat) : Nat :=
  let floor := value / unit
  match compare (2 * (value % unit)) unit with
  | .lt => floor
  | .gt => floor + 1
  | .eq => match tie with
    | .up => floor + 1
    | .even => if floor % 2 = 0 then floor else floor + 1

/-- The grid point with last digit at `10 ^ power` that reads back, if one of the two
beside the number does; of two, the nearer. -/
def Neighbourhood.point? (around : Neighbourhood) (tie : Tie) (power : Int) : Option Nat :=
  let scale := Nat.pow 10 (-power).toNat
  let unit := Nat.pow 10 power.toNat
  let value := around.middle * scale
  let step := around.bottom * unit
  let floor := value / step
  let below := floor ≠ 0 && around.holds (floor * unit) scale
  let above := around.holds ((floor + 1) * unit) scale
  match below, above with
  | true, true => some (roundedQuotient tie value step)
  | true, false => some floor
  | false, true => some (floor + 1)
  | false, false => none

/-- The first of the grids with `count`, `count + 1`, … digits that has a point in the
interval, as a whole number and the power of ten of its last digit. -/
def Neighbourhood.firstPoint (around : Neighbourhood) (tie : Tie) (lead : Int) :
    (grids : Nat) → (count : Nat) → Nat × Int
  | 0, count =>
    let power := lead + 1 - count
    (roundedQuotient tie (around.middle * Nat.pow 10 (-power).toNat)
      (around.bottom * Nat.pow 10 power.toNat), power)
  | grids + 1, count =>
    match around.point? tie (lead + 1 - count) with
    | some point => (point, lead + 1 - count)
    | none => around.firstPoint tie lead grids (count + 1)

def dropTrailingZeros (digits : List Char) : List Char :=
  (digits.reverse.dropWhile (· = '0')).reverse

/-- The fewest digits that read back as `mantissa · 2 ^ exponent`; seventeen always do. -/
def shortest (tie : Tie) (mantissa : Nat) (exponent : Int) : Digits :=
  let around := neighbourhood mantissa exponent
  let lead := leadingPower around.middle around.bottom
  let (point, power) := around.firstPoint tie lead 16 1
  let digits := decimal point
  { digits := dropTrailingZeros digits
    lead := power + digits.length - 1 }

/-- How a double is written. -/
structure Layout where
  tie : Tie
  /-- Powers of the first digit that are written without an exponent. -/
  isPositional : Int → Bool
  /-- A whole number keeps a point and a zero. -/
  keepsPoint : Bool
  infinity : List Char
  undefined : List Char

def zeros (count : Nat) : List Char :=
  List.replicate count '0'

/-- Digits laid out around the point, without an exponent. -/
def Layout.positional (layout : Layout) (number : Digits) : List Char :=
  if number.lead < 0 then
    '0' :: '.' :: (zeros (-number.lead - 1).toNat ++ number.digits)
  else
    let width := number.lead.toNat + 1
    let whole := number.digits.take width ++ zeros (width - number.digits.length)
    match number.digits.drop width with
    | [] => if layout.keepsPoint then whole ++ ['.', '0'] else whole
    | fraction => whole ++ '.' :: fraction

/-- One digit before the point and a signed exponent. -/
def scientific (number : Digits) : List Char :=
  let tail := match number.digits.tail with
    | [] => []
    | fraction => '.' :: fraction
  let sign := if number.lead < 0 then '-' else '+'
  number.digits.take 1 ++ tail ++ 'e' :: sign :: decimal number.lead.natAbs

def signed (sign : UnpackedFloat.Sign) (text : List Char) : List Char :=
  match sign with
  | .negative => '-' :: text
  | .positive => text

/-- The text of any double. -/
def Layout.write (layout : Layout) (x : Float) : List Char :=
  match x.toModel.unpack with
  | .notANumber => layout.undefined
  | .infinity sign => signed sign layout.infinity
  | .zero sign => signed sign (layout.positional ⟨['0'], 0⟩)
  | .finite sign m e _ =>
    let number := shortest layout.tie m e
    signed sign (if layout.isPositional number.lead then layout.positional number
      else scientific number)

/-- Plain text never has an exponent, and a whole number has no point. -/
def plain : Layout where
  tie := .up
  isPositional := fun _ ↦ true
  keepsPoint := false
  infinity := ['i', 'n', 'f']
  undefined := ['N', 'a', 'N']

/-- The number rounded to `places` digits after the point, a half going to the even
neighbour. -/
def fixed (places : Nat) (x : Float) : List Char :=
  let write (scaled : Nat) : List Char :=
    let digits := decimal scaled
    let padded := zeros (places + 1 - digits.length) ++ digits
    let whole := padded.length - places
    padded.take whole ++ '.' :: padded.drop whole
  match x.toModel.unpack with
  | .notANumber => plain.undefined
  | .infinity sign => signed sign plain.infinity
  | .zero sign => signed sign (write 0)
  | .finite sign m e _ =>
    signed sign (write (roundedQuotient .even (m * Nat.pow 10 places * Nat.pow 2 e.toNat)
      (Nat.pow 2 (-e).toNat)))

end SpiralMachine.Number
