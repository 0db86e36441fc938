import SpiralMachine.Stack.Error

/-!
# Tensors

A tensor has a shape, the lengths of its axes, and its elements in row-major order. It
is read from a rectangular nest of lists of numbers, in which an empty axis is the last.
-/

set_option autoImplicit false

namespace SpiralMachine

structure Tensor where
  shape : List Nat
  data : List Float

namespace Tensor

/-- As many elements as the shape has places. -/
def WellFormed (tensor : Tensor) : Prop :=
  tensor.data.length = tensor.shape.foldr (· * ·) 1

/-- No axes may span more places than this, empty ones aside. -/
def placeLimit : Nat := UInt64.size / 2 - 1

def ofShape (shape : List Nat) (data : List Float) : Except TensorFlaw Tensor :=
  let places (lengths : List Nat) : Nat := lengths.foldr (· * ·) 1
  if places (shape.filter (· ≠ 0)) ≤ placeLimit ∧ data.length = places shape then
    .ok { shape, data }
  else .error .shapeUnfit

/-- What is known of a tensor while its nest is walked: the lengths of the axes met so
far, how many axes there are once a number was met, and the numbers. -/
structure Walk where
  shape : List Nat
  rank : Option Nat
  values : Array Float

namespace Walk

def start : Walk := ⟨[], none, #[]⟩

/-- Enters a list of some length inside `depth` others. -/
def enter (walk : Walk) (depth length : Nat) : Except TensorFlaw Walk :=
  if walk.rank.any (· ≤ depth) then .error (.ragged depth)
  else match walk.shape[depth]? with
    | none => .ok { walk with shape := walk.shape ++ [length] }
    | some known => if known = length then .ok walk else .error (.ragged depth)

/-- Meets a number inside `depth` lists. -/
def meet (walk : Walk) (depth : Nat) (value : Float) : Except TensorFlaw Walk :=
  if walk.rank = some depth ∨ walk.rank = none ∧ walk.shape.length = depth then
    .ok { walk with rank := some depth, values := walk.values.push value }
  else .error (.ragged depth)

mutual

def visit (walk : Walk) (depth : Nat) : Json → Except TensorFlaw Walk
  | .list items => do visitItems (← walk.enter depth items.length) (depth + 1) items
  | .integer value => walk.meet depth (Float.ofInt value)
  | .real value => walk.meet depth value
  | other => .error (.notNumeric other)

def visitItems (walk : Walk) (depth : Nat) : List Json → Except TensorFlaw Walk
  | [] => .ok walk
  | item :: items => do visitItems (← visit walk depth item) depth items

end

end Walk

def ofJson (value : Json) : Except TensorFlaw Tensor := do
  let walk ← Walk.start.visit 0 value
  ofShape walk.shape walk.values.toList

/-- Eight running sums that take the elements in turn, for each full block of eight;
also gives back the elements after the last block. -/
def blockSums : List Float → (sums : List Float) → List Float × List Float
  | a :: b :: c :: d :: e :: f :: g :: h :: rest, sums =>
    blockSums rest (List.zipWith (· + ·) sums [a, b, c, d, e, f, g, h])
  | rest, sums => (sums, rest)

/-- The sum of the elements: blocks of eight are summed side by side, and what is left
is added one by one. -/
def sum (tensor : Tensor) : Float :=
  let (sums, rest) := blockSums tensor.data (List.replicate 8 0.0)
  let halves := List.zipWith (· + ·) (sums.take 4) (sums.drop 4)
  (halves ++ rest).foldl (· + ·) 0.0

def scale (tensor : Tensor) (factor : Float) : Tensor :=
  { tensor with data := tensor.data.map (· * factor) }

/-- Joins two tensors of one shape element by element. -/
def zipWith (op : String) (join : Float → Float → Float) (left right : Tensor) :
    Except StackError Tensor :=
  if left.shape = right.shape then
    .ok { shape := left.shape, data := List.zipWith join left.data right.data }
  else .error (.shapeMismatch op left.shape right.shape)

def add (left right : Tensor) : Except StackError Tensor := zipWith "T_ADD" (· + ·) left right

def sub (left right : Tensor) : Except StackError Tensor := zipWith "T_SUB" (· - ·) left right

def mul (left right : Tensor) : Except StackError Tensor := zipWith "T_MUL" (· * ·) left right

end Tensor

end SpiralMachine
