import SpiralMachine.Tensor.Basic

/-!
# Tensors as text

A tensor is written as a nest of lists, the lists of one axis on lines of their own and
set apart by more empty lines the more axes are inside. Of a large tensor a long axis
shows only its two ends.
-/

set_option autoImplicit false

namespace SpiralMachine

def floatText (x : Float) : String := String.ofList (Number.plain.write x)

namespace Tensor

/-- From so many elements on, long axes are cut. -/
def largeSize : Nat := 500

/-- The greatest length an axis may have without being cut, by the number of axes
inside it. -/
def axisLimit : (inside : Nat) → Nat
  | 0 => 11
  | 1 => 11
  | _ => 6

/-- The items, or the two ends of them around an ellipsis if there are more than
`limit`. -/
def cutItems (limit : Option Nat) (items : List String) : List String :=
  match limit with
  | none => items
  | some limit =>
    if items.length ≤ limit then items
    else items.take (limit / 2) ++ ["..."] ++ items.drop (items.length - limit / 2)

/-- Elements as rows of some length. -/
def rows (count length : Nat) (data : List Float) : List (List Float) :=
  (List.range count).map fun row ↦ (data.drop (row * length)).take length

/-- The text of the elements over these axes, inside `depth` brackets. -/
def nestText (cuts : Bool) : (depth : Nat) → (shape : List Nat) → List Float → String
  | _, [], data => floatText (data.headD 0.0)
  | _, [_], data =>
    let limit := if cuts then some (axisLimit 0) else none
    "[" ++ String.intercalate ", " (cutItems limit (data.map floatText)) ++ "]"
  | depth, length :: next :: rest, data =>
    let limit := if cuts then some (axisLimit (rest.length + 1)) else none
    let row := (next :: rest).foldr (· * ·) 1
    let items := (rows length row data).map (nestText cuts (depth + 1) (next :: rest))
    let separator := ",\n" ++ String.ofList (List.replicate rest.length '\n')
      ++ String.ofList (List.replicate (depth + 1) ' ')
    "[" ++ String.intercalate separator (cutItems limit items) ++ "]"

/-- The text of a tensor; without elements it is bare brackets. -/
def describe (tensor : Tensor) : String :=
  if tensor.data.isEmpty then
    let rank := tensor.shape.length
    String.ofList (List.replicate rank '[' ++ List.replicate rank ']')
  else nestText (largeSize ≤ tensor.data.length) 0 tensor.shape tensor.data

end Tensor

end SpiralMachine
