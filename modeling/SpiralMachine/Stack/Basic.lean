import SpiralMachine.Stack.Error

/-!
# Stacks

The item that was pushed last is the first to be popped.
-/

set_option autoImplicit false

namespace SpiralMachine

/-- A stack with its items from top to bottom. -/
structure Stack (α : Type) where
  items : List α

namespace Stack

variable {α : Type}

def empty : Stack α := ⟨[]⟩

def push (stack : Stack α) (item : α) : Stack α := ⟨item :: stack.items⟩

/-- Takes the top item off, on behalf of an operation. -/
def popFor (op : String) : Stack α → Except StackError (α × Stack α)
  | ⟨[]⟩ => .error (.underflow op)
  | ⟨item :: rest⟩ => .ok (item, ⟨rest⟩)

def pop (stack : Stack α) : Except StackError (α × Stack α) := stack.popFor "POP"

def peek? (stack : Stack α) : Option α := stack.items.head?

def size (stack : Stack α) : Nat := stack.items.length

def isEmpty (stack : Stack α) : Bool := stack.items.isEmpty

/-- The items from bottom to top. -/
def toList (stack : Stack α) : List α := stack.items.reverse

theorem pop_push (stack : Stack α) (item : α) : (stack.push item).pop = .ok (item, stack) := rfl

@[simp]
theorem toList_push (stack : Stack α) (item : α) :
    (stack.push item).toList = stack.toList ++ [item] := by
  simp [push, toList]

@[simp]
theorem size_push (stack : Stack α) (item : α) : (stack.push item).size = stack.size + 1 := rfl

@[simp]
theorem length_toList (stack : Stack α) : stack.toList.length = stack.size := by
  simp [toList, size]

end Stack

end SpiralMachine
