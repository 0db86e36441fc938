import SpiralMachine.Stack.Basic
import SpiralMachine.Stack.Instruction

/-!
# The stack machine

An instruction takes its operands from the stack, the right one first, and leaves its
result. What it has taken before it fails is gone.
-/

set_option autoImplicit false

namespace SpiralMachine

/-- A computation on a stack of values; a failure keeps the stack it has come to. -/
abbrev StackM := ExceptT StackError (StateM (Stack StackValue))

namespace StackM

def push (value : StackValue) : StackM Unit := modify (·.push value)

def pop (op : String) : StackM StackValue := do
  match (← get).popFor op with
  | .ok (value, rest) =>
    set rest
    return value
  | .error cause => throw cause

def popScalar (op : String) : StackM Float := do
  match ← pop op with
  | .scalar value => return value
  | .tensor _ => throw (.typeMismatch op "scalar")

def popTensor (op : String) : StackM Tensor := do
  match ← pop op with
  | .tensor value => return value
  | .scalar _ => throw (.typeMismatch op "tensor")

/-- Joins the two scalars on top. -/
def joinScalars (op : String) (join : Float → Float → Except StackError Float) :
    StackM Unit := do
  let right ← popScalar op
  let left ← popScalar op
  match join left right with
  | .ok value => push (.scalar value)
  | .error cause => throw cause

/-- Joins the two tensors on top. -/
def joinTensors (op : String) (join : Tensor → Tensor → Except StackError Tensor) :
    StackM Unit := do
  let right ← popTensor op
  let left ← popTensor op
  match join left right with
  | .ok value => push (.tensor value)
  | .error cause => throw cause

end StackM

namespace StackInstruction

open StackM

def quotient (left right : Float) : Except StackError Float :=
  if right == 0.0 then .error .divisionByZero else .ok (left / right)

/-- What an instruction does to the stack. -/
def step (instruction : StackInstruction) : StackM Unit := do
  let op := instruction.mnemonic
  match instruction with
  | .push value => StackM.push value
  | .pop => discard (StackM.pop op)
  | .dup =>
    match (← get).peek? with
    | some top => StackM.push top
    | none => throw (.underflow op)
  | .swap =>
    let right ← StackM.pop op
    let left ← StackM.pop op
    StackM.push right
    StackM.push left
  | .add => joinScalars op fun left right ↦ .ok (left + right)
  | .sub => joinScalars op fun left right ↦ .ok (left - right)
  | .mul => joinScalars op fun left right ↦ .ok (left * right)
  | .div => joinScalars op quotient
  | .tensorAdd => joinTensors op Tensor.add
  | .tensorSub => joinTensors op Tensor.sub
  | .tensorMul => joinTensors op Tensor.mul
  | .tensorScale =>
    let factor ← popScalar op
    let tensor ← popTensor op
    StackM.push (.tensor (tensor.scale factor))
  | .tensorSum =>
    let tensor ← popTensor op
    StackM.push (.scalar tensor.sum)

/-- Runs instructions until one fails. -/
def runAll : List StackInstruction → StackM Unit
  | [] => pure ()
  | instruction :: rest => do
    instruction.step
    runAll rest

/-- One instruction on a stack: what it leaves, and how it failed if it did. -/
def stepOn (instruction : StackInstruction) (stack : Stack StackValue) :
    Stack StackValue × Option StackError :=
  match (instruction.step.run).run stack with
  | (.ok _, stack) => (stack, none)
  | (.error cause, stack) => (stack, some cause)

/-- Clears the stack, runs instructions on it and gives what it holds then, from bottom to
top. -/
def runAfresh (program : List StackInstruction) : StackM (List StackValue) := do
  set (Stack.empty : Stack StackValue)
  runAll program
  return (← get).toList

/-- Runs instructions on an empty stack. -/
def execute (program : List StackInstruction) : Stack StackValue × Option StackError :=
  match ((runAfresh program).run).run Stack.empty with
  | (.ok _, stack) => (stack, none)
  | (.error cause, stack) => (stack, some cause)

end StackInstruction

end SpiralMachine
