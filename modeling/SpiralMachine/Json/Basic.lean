import SpiralMachine.Text.Keyed

/-!
# JSON values

Numbers are whole numbers or doubles. The members of an object stand in the order in
which they are written; every object that is read has them in the order of their keys,
with one value for a key.
-/

set_option autoImplicit false

namespace SpiralMachine

inductive Json where
  | null
  | boolean (value : Bool)
  | integer (value : Int)
  | real (value : Float)
  | string (value : String)
  | list (items : List Json)
  | object (members : List (String × Json))
  deriving Inhabited

namespace Json

/-- Members ordered by key. -/
abbrev Members := List (String × Json)

def isNull : Json → Bool
  | null => true
  | _ => false

/-- The value as a double, if it is a number. -/
def float? : Json → Option Float
  | integer value => some (Float.ofInt value)
  | real value => some value
  | _ => none

/-- The value as a natural number, if it is a whole number that is not negative. -/
def natural? : Json → Option Nat
  | integer (.ofNat value) => some value
  | _ => none

def string? : Json → Option String
  | string value => some value
  | _ => none

def boolean? : Json → Option Bool
  | boolean value => some value
  | _ => none

/-- A list of doubles, undefined and infinite ones given as null. -/
def reals (values : List Float) : Json :=
  list (values.map fun x ↦ if x.isFinite then real x else null)

end Json

end SpiralMachine
