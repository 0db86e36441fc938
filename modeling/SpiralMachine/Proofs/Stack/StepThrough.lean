import SpiralMachine.Stack.Run

/-!
# Stepping through a program

`stepThrough` takes a stack program up to the first instruction that fails, and says at which place
that is. Running all instructions comes to the same (`runAll_on`). So does `execute`, and a machine
that clears its stack first, on an empty stack (`execute_eq`, `runAfresh_on`).
-/

set_option autoImplicit false

namespace SpiralMachine

namespace StackM

variable {α β : Type}

/-- What a computation comes to on a stack, and the stack that it leaves. -/
def on (computation : StackM α) (stack : Stack StackValue) :
    Except StackError α × Stack StackValue :=
  (computation.run).run stack

theorem on_bind (first : StackM α) (next : α → StackM β) (stack : Stack StackValue) :
    (first >>= next).on stack =
      match first.on stack with
      | (.ok value, rest) => (next value).on rest
      | (.error cause, rest) => (.error cause, rest) := by
  change (ExceptT.bindCont next (first.on stack).1).run (first.on stack).2 = _
  rcases first.on stack with ⟨_ | _, rest⟩ <;> rfl

end StackM

namespace StackInstruction

theorem stepOn_eq (instruction : StackInstruction) (stack : Stack StackValue) :
    instruction.stepOn stack =
      match instruction.step.on stack with
      | (.ok _, stack) => (stack, none)
      | (.error cause, stack) => (stack, some cause) := rfl

/-- Takes a program on a stack up to the first instruction that fails: what is left on the stack,
and the place and the cause of the failure if there is one. -/
def stepThrough :
    List StackInstruction → Stack StackValue → Stack StackValue × Option (Nat × StackError)
  | [], stack => (stack, none)
  | instruction :: rest, stack =>
    match instruction.stepOn stack with
    | (stack, some cause) => (stack, some (0, cause))
    | (stack, none) =>
      let (stack, failure) := stepThrough rest stack
      (stack, failure.map fun (place, cause) ↦ (place + 1, cause))

theorem stepThrough_cons (instruction : StackInstruction) (rest : List StackInstruction)
    (stack : Stack StackValue) :
    stepThrough (instruction :: rest) stack =
      match instruction.step.on stack with
      | (.ok _, stack) =>
        ((stepThrough rest stack).1,
          (stepThrough rest stack).2.map fun (place, cause) ↦ (place + 1, cause))
      | (.error cause, stack) => (stack, some (0, cause)) := by
  rw [stepThrough, stepOn_eq]
  rcases instruction.step.on stack with ⟨_ | _, left⟩ <;> rfl

/-- Running all instructions leaves what stepping through them leaves, and fails as it does. -/
theorem runAll_on (program : List StackInstruction) (stack : Stack StackValue) :
    (runAll program).on stack =
      ((stepThrough program stack).2.elim (.ok ()) fun (_, cause) ↦ .error cause,
        (stepThrough program stack).1) := by
  induction program generalizing stack with
  | nil => rfl
  | cons instruction rest ih =>
    rw [runAll, StackM.on_bind, stepThrough_cons]
    rcases instruction.step.on stack with ⟨cause | _, left⟩
    · rfl
    · dsimp only
      rw [ih]
      cases (stepThrough rest left).2 <;> rfl

/-- What a machine comes to that clears its stack first, whatever it held. -/
theorem runAfresh_on (program : List StackInstruction) (stack : Stack StackValue) :
    (runAfresh program).on stack =
      ((stepThrough program .empty).2.elim (.ok (stepThrough program .empty).1.toList)
        fun (_, cause) ↦ .error cause, (stepThrough program .empty).1) := by
  rw [runAfresh, StackM.on_bind]
  change (runAll program >>= fun _ ↦ _).on .empty = _
  rw [StackM.on_bind, runAll_on]
  cases (stepThrough program .empty).2 <;> rfl

theorem execute_eq (program : List StackInstruction) :
    execute program =
      ((stepThrough program .empty).1, (stepThrough program .empty).2.map Prod.snd) := by
  have hafresh := runAfresh_on program .empty
  unfold StackM.on at hafresh
  rw [execute, hafresh]
  cases (stepThrough program .empty).2 <;> rfl

end StackInstruction

end SpiralMachine
