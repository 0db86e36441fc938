/-!
# Readers

A reader takes a value from the front of a text and gives back the rest. Digits are
read the same way in every format.
-/

set_option autoImplicit false

namespace SpiralMachine.Text

/-- A reader of one value from the front of a text. -/
abbrev Reader (α : Type) := List Char → Option (α × List Char)

/-- The value of a digit of any base up to sixteen. -/
def digitValue? (c : Char) : Option Nat :=
  if '0' ≤ c ∧ c ≤ '9' then some (c.toNat - '0'.toNat)
  else if 'a' ≤ c ∧ c ≤ 'f' then some (c.toNat - 'a'.toNat + 10)
  else if 'A' ≤ c ∧ c ≤ 'F' then some (c.toNat - 'A'.toNat + 10)
  else none

/-- The number that digits stand for in a base. -/
def digitsValue (base : Nat) (digits : List Char) : Nat :=
  digits.foldl (fun value c ↦ value * base + (digitValue? c).getD 0) 0

/-- The number of exactly four or eight hexadecimal digits, among others. -/
def hexValue? (digits : List Char) : Option Nat :=
  if digits.all fun c ↦ (digitValue? c).isSome then some (digitsValue 16 digits) else none

end SpiralMachine.Text
