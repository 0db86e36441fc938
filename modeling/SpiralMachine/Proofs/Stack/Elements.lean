import Mathlib.Tactic.Common
import SpiralMachine.Proofs.Stack.StepThrough

/-!
# Tensors on the stack

Every tensor on the stack has as many elements as its shape has places, if those that were pushed
have. Computations on the stack are said to keep this (`StackM.Keeps`); what is put together from
such computations keeps it, so that each instruction does and every stack that is reached has only
such tensors (`Stack.Reachable.wellFormed`). Two of them that have one shape hence have equally many
elements, and an operator joins each element of the lower to the one of the upper at the same place
(`Stack.Reachable.tensors_elementwise`).
-/

set_option autoImplicit false

namespace SpiralMachine

/-! ### Well-formed tensors -/

namespace Tensor

variable {left right result : Tensor}

theorem WellFormed.scale {tensor : Tensor} (h : tensor.WellFormed) (factor : Float) :
    (tensor.scale factor).WellFormed := by
  simpa [WellFormed, Tensor.scale] using h

/-- Well-formed tensors of one shape have equally many elements. -/
theorem WellFormed.length_eq (hleft : left.WellFormed) (hright : right.WellFormed)
    (hshape : left.shape = right.shape) : right.data.length = left.data.length := by
  rw [WellFormed] at hleft hright
  rw [hleft, hright, hshape]

theorem zipWith_ok {op : String} {join : Float → Float → Float}
    (h : zipWith op join left right = .ok result) :
    left.shape = right.shape ∧ result = ⟨left.shape, List.zipWith join left.data right.data⟩ := by
  unfold zipWith at h
  split_ifs at h with hshape
  cases h
  exact ⟨hshape, rfl⟩

theorem WellFormed.zipWith (hleft : left.WellFormed) (hright : right.WellFormed) {op : String}
    {join : Float → Float → Float} (h : Tensor.zipWith op join left right = .ok result) :
    result.WellFormed := by
  obtain ⟨hshape, rfl⟩ := zipWith_ok h
  have hlength := hleft.length_eq hright hshape
  simpa [WellFormed, hlength] using hleft

/-- A tensor of the shape of two others, each element of which is joined from theirs at the same
place. -/
structure JoinedFrom (result : Tensor) (join : Float → Float → Float) (left right : Tensor) :
    Prop where
  shape_eq : result.shape = left.shape
  length_eq : result.data.length = left.data.length
  elements : ∀ index < left.data.length, ∃ x y, left.data[index]? = some x ∧
    right.data[index]? = some y ∧ result.data[index]? = some (join x y)

theorem WellFormed.joinedFrom (hleft : left.WellFormed) (hright : right.WellFormed)
    (hshape : left.shape = right.shape) (join : Float → Float → Float) :
    JoinedFrom ⟨left.shape, List.zipWith join left.data right.data⟩ join left right := by
  have hlength := hleft.length_eq hright hshape
  refine ⟨rfl, by simp [hlength], fun index hindex ↦ ?_⟩
  have hx := List.getElem?_eq_getElem hindex
  have hy := List.getElem?_eq_getElem (hlength ▸ hindex : index < right.data.length)
  exact ⟨_, _, hx, hy, by simp [List.getElem?_zipWith, hx, hy]⟩

end Tensor

def StackValue.WellFormed : StackValue → Prop
  | scalar _ => True
  | tensor value => value.WellFormed

def Stack.WellFormed (stack : Stack StackValue) : Prop :=
  ∀ value ∈ stack.items, value.WellFormed

/-- Pushes a value only if it is well formed. -/
def StackInstruction.PushesWellFormed (instruction : StackInstruction) : Prop :=
  ∀ value, instruction = .push value → value.WellFormed

theorem Stack.WellFormed.push {stack : Stack StackValue} (h : stack.WellFormed)
    {value : StackValue} (hvalue : value.WellFormed) : (stack.push value).WellFormed := by
  intro other hother
  rcases List.mem_cons.mp hother with rfl | hother
  · exact hvalue
  · exact h other hother

/-! ### What computations keep -/

namespace StackM

variable {α β : Type} {results : α → Prop} {finals : β → Prop}

/-- From well-formed values on the stack a computation comes to well-formed values, and to a result
of some kind unless it fails. -/
def Keeps (results : α → Prop) (computation : StackM α) : Prop :=
  ∀ stack : Stack StackValue, stack.WellFormed →
    (computation.on stack).2.WellFormed ∧
      ∀ result, (computation.on stack).1 = .ok result → results result

theorem keeps_pure {result : α} (h : results result) : Keeps results (pure result) := by
  intro stack hstack
  refine ⟨hstack, fun other hother ↦ ?_⟩
  cases hother
  exact h

theorem keeps_throw (cause : StackError) : Keeps results (throw cause) :=
  fun _ hstack ↦ ⟨hstack, nofun⟩

theorem Keeps.bind {computation : StackM α} {next : α → StackM β} (h : Keeps results computation)
    (hnext : ∀ result, results result → Keeps finals (next result)) :
    Keeps finals (computation >>= next) := by
  intro stack hstack
  obtain ⟨hrest, hresult⟩ := h stack hstack
  rw [on_bind]
  generalize computation.on stack = stop at hrest hresult ⊢
  rcases stop with ⟨cause | result, rest⟩
  · exact ⟨hrest, nofun⟩
  · exact hnext result (hresult result rfl) rest hrest

theorem keeps_push {value : StackValue} (h : value.WellFormed) :
    Keeps (fun _ ↦ True) (push value) :=
  fun _ hstack ↦ ⟨hstack.push h, fun _ _ ↦ trivial⟩

theorem keeps_pop (op : String) : Keeps StackValue.WellFormed (pop op) := by
  rintro ⟨_ | ⟨top, rest⟩⟩ hstack
  · exact ⟨hstack, nofun⟩
  · refine ⟨fun value hvalue ↦ hstack value (List.mem_cons_of_mem top hvalue), fun value h ↦ ?_⟩
    cases h
    exact hstack top List.mem_cons_self

theorem keeps_popScalar (op : String) : Keeps (fun _ ↦ True) (popScalar op) := by
  refine (keeps_pop op).bind fun value hvalue ↦ ?_
  cases value with
  | scalar value => exact keeps_pure trivial
  | tensor value => exact keeps_throw _

theorem keeps_popTensor (op : String) : Keeps Tensor.WellFormed (popTensor op) := by
  refine (keeps_pop op).bind fun value hvalue ↦ ?_
  cases value with
  | scalar value => exact keeps_throw _
  | tensor value => exact keeps_pure hvalue

theorem keeps_joinScalars (op : String) (join : Float → Float → Except StackError Float) :
    Keeps (fun _ ↦ True) (joinScalars op join) := by
  refine (keeps_popScalar op).bind fun right _ ↦ (keeps_popScalar op).bind fun left _ ↦ ?_
  cases join left right with
  | ok value => exact keeps_push trivial
  | error cause => exact keeps_throw cause

theorem keeps_joinTensors (op name : String) (join : Float → Float → Float) :
    Keeps (fun _ ↦ True) (joinTensors op (Tensor.zipWith name join)) := by
  refine (keeps_popTensor op).bind fun right hright ↦
    (keeps_popTensor op).bind fun left hleft ↦ ?_
  cases hjoined : Tensor.zipWith name join left right with
  | ok value => exact keeps_push (hleft.zipWith hright hjoined)
  | error cause => exact keeps_throw cause

end StackM

namespace StackInstruction

open StackM

/-- What is done to each two elements by an instruction that joins tensors. -/
def elementwise? : StackInstruction → Option (Float → Float → Float)
  | tensorAdd => some (· + ·)
  | tensorSub => some (· - ·)
  | tensorMul => some (· * ·)
  | _ => none

theorem step_elementwise {instruction : StackInstruction} {join : Float → Float → Float}
    (h : instruction.elementwise? = some join) :
    instruction.step =
      joinTensors instruction.mnemonic (Tensor.zipWith instruction.mnemonic join) := by
  cases instruction <;> cases h <;> rfl

theorem keeps_elementwise {instruction : StackInstruction} {join : Float → Float → Float}
    (h : instruction.elementwise? = some join) : Keeps (fun _ ↦ True) instruction.step := by
  rw [step_elementwise h]
  exact keeps_joinTensors _ _ join

/-- Every instruction keeps the tensors on the stack well formed. -/
theorem keeps_step {instruction : StackInstruction} (h : instruction.PushesWellFormed) :
    Keeps (fun _ ↦ True) instruction.step := by
  cases instruction with
  | push value => exact keeps_push (h value rfl)
  | pop => exact (keeps_pop "POP").bind fun _ _ ↦ keeps_pure trivial
  | dup =>
    rintro ⟨_ | ⟨top, rest⟩⟩ hstack
    · exact ⟨hstack, nofun⟩
    · exact ⟨hstack.push (hstack top List.mem_cons_self), fun _ _ ↦ trivial⟩
  | swap =>
    exact (keeps_pop "SWAP").bind fun _ hright ↦ (keeps_pop "SWAP").bind fun _ hleft ↦
      (keeps_push hright).bind fun _ _ ↦ keeps_push hleft
  | add => exact keeps_joinScalars "ADD" fun left right ↦ .ok (left + right)
  | sub => exact keeps_joinScalars "SUB" fun left right ↦ .ok (left - right)
  | mul => exact keeps_joinScalars "MUL" fun left right ↦ .ok (left * right)
  | div => exact keeps_joinScalars "DIV" quotient
  | tensorAdd => exact keeps_elementwise rfl
  | tensorSub => exact keeps_elementwise rfl
  | tensorMul => exact keeps_elementwise rfl
  | tensorScale =>
    exact (keeps_popScalar "T_SCALE").bind fun factor _ ↦
      (keeps_popTensor "T_SCALE").bind fun tensor htensor ↦ keeps_push (htensor.scale factor)
  | tensorSum =>
    exact (keeps_popTensor "T_SUM").bind fun tensor _ ↦ keeps_push trivial

theorem keeps_runAll {program : List StackInstruction}
    (h : ∀ instruction ∈ program, instruction.PushesWellFormed) :
    Keeps (fun _ ↦ True) (runAll program) := by
  induction program with
  | nil => exact keeps_pure trivial
  | cons instruction rest ih =>
    rw [List.forall_mem_cons] at h
    exact (keeps_step h.1).bind fun _ _ ↦ ih h.2

end StackInstruction

/-! ### Stacks that are reached -/

open StackInstruction StackM

/-- The stacks of a machine that starts with an empty one, takes instructions one by one, whether
they fail or not, and runs programs, for each of which it clears its stack. -/
inductive Stack.Reachable : Stack StackValue → Prop
  | empty : Reachable .empty
  | step {stack} (h : Reachable stack) {instruction : StackInstruction}
      (hpush : instruction.PushesWellFormed) : Reachable (instruction.stepOn stack).1
  | execute {stack} (h : Reachable stack) {program : List StackInstruction}
      (hpush : ∀ instruction ∈ program, instruction.PushesWellFormed) :
      Reachable ((runAfresh program).on stack).2

theorem Stack.Reachable.push {stack : Stack StackValue} (h : stack.Reachable) {value : StackValue}
    (hvalue : value.WellFormed) : (stack.push value).Reachable := by
  have hpush : (StackInstruction.push value).PushesWellFormed := by
    intro other hother
    cases hother
    exact hvalue
  exact h.step hpush

theorem Stack.wellFormed_empty : Stack.WellFormed .empty := nofun

theorem Stack.Reachable.wellFormed {stack : Stack StackValue} (h : stack.Reachable) :
    stack.WellFormed := by
  induction h with
  | empty => exact wellFormed_empty
  | @step stack _ instruction hpush ih =>
    have hleft := (keeps_step hpush stack ih).1
    rw [stepOn_eq]
    generalize instruction.step.on stack = stop at hleft ⊢
    rcases stop with ⟨cause | _, left⟩ <;> exact hleft
  | @execute stack _ program hpush _ =>
    have hleft := (keeps_runAll hpush .empty wellFormed_empty).1
    rwa [runAll_on, ← congrArg Prod.snd (runAfresh_on program stack)] at hleft

/-! ### Operators on tensors -/

theorem StackM.popTensor_on (op : String) (base : Stack StackValue) (tensor : Tensor) :
    (popTensor op).on (base.push (.tensor tensor)) = (.ok tensor, base) := rfl

/-- Two tensors on top are joined if they have one shape, and are gone otherwise. -/
theorem StackM.joinTensors_on (op : String) (join : Float → Float → Float)
    (base : Stack StackValue) (left right : Tensor) :
    (joinTensors op (Tensor.zipWith op join)).on
        ((base.push (.tensor left)).push (.tensor right)) =
      if left.shape = right.shape then
        (.ok (), base.push (.tensor ⟨left.shape, List.zipWith join left.data right.data⟩))
      else (.error (.shapeMismatch op left.shape right.shape), base) := by
  rw [joinTensors, on_bind, popTensor_on]
  dsimp only
  rw [on_bind, popTensor_on]
  dsimp only [Tensor.zipWith]
  split_ifs <;> rfl

/-- What an instruction that joins tensors makes of two of them. -/
theorem StackInstruction.stepOn_elementwise {instruction : StackInstruction}
    {join : Float → Float → Float} (h : instruction.elementwise? = some join)
    (base : Stack StackValue) (left right : Tensor) :
    instruction.stepOn ((base.push (.tensor left)).push (.tensor right)) =
      if left.shape = right.shape then
        (base.push (.tensor ⟨left.shape, List.zipWith join left.data right.data⟩), none)
      else (base, some (.shapeMismatch instruction.mnemonic left.shape right.shape)) := by
  rw [stepOn_eq, step_elementwise h, joinTensors_on]
  split_ifs <;> rfl

/-- On every stack that is reached all tensors have as many elements as their shapes have places.
Where two tensors are on top of it, T_ADD, T_SUB and T_MUL succeed exactly if they have the same
shape, and leave one tensor of this shape in their place, whose elements are joined from those at
the same places, that of the lower tensor on the left; otherwise the shapes are reported in this
order. T_SCALE multiplies each element of the tensor below a number by that number. -/
theorem Stack.Reachable.tensors_elementwise {stack : Stack StackValue} (h : stack.Reachable) :
    (∀ tensor, .tensor tensor ∈ stack.items → tensor.WellFormed) ∧
    (∀ (base : Stack StackValue) (left right : Tensor),
      stack = (base.push (.tensor left)).push (.tensor right) →
      ∀ (instruction : StackInstruction) (join : Float → Float → Float),
        instruction.elementwise? = some join →
          let done := instruction.stepOn stack
          (done.2 = none ↔ left.shape = right.shape) ∧
          (left.shape = right.shape → ∃ result, done = (base.push (.tensor result), none) ∧
            result.JoinedFrom join left right) ∧
          (left.shape ≠ right.shape →
            done = (base, some (.shapeMismatch instruction.mnemonic left.shape right.shape)))) ∧
    ∀ (base : Stack StackValue) (tensor : Tensor) (factor : Float),
      stack = (base.push (.tensor tensor)).push (.scalar factor) →
        ∃ result : Tensor, tensorScale.stepOn stack = (base.push (.tensor result), none) ∧
          result.shape = tensor.shape ∧ result.data.length = tensor.data.length ∧
          ∀ index : ℕ, result.data[index]? = tensor.data[index]?.map (· * factor) := by
  refine ⟨fun tensor htensor ↦ h.wellFormed (.tensor tensor) htensor, ?_, ?_⟩
  · intro base left right hstack instruction join hjoin done
    have hdone := stepOn_elementwise hjoin base left right
    rw [← hstack] at hdone
    have hright : right.WellFormed := h.wellFormed (.tensor right) (by simp [hstack, Stack.push])
    have hleft : left.WellFormed := h.wellFormed (.tensor left) (by simp [hstack, Stack.push])
    refine ⟨?_, fun hshape ↦ ?_, fun hshape ↦ hdone.trans (if_neg hshape)⟩
    · dsimp only [done]
      rw [hdone]
      by_cases hshape : left.shape = right.shape <;> simp [hshape]
    · exact ⟨_, hdone.trans (if_pos hshape), hleft.joinedFrom hright hshape join⟩
  · rintro base tensor factor rfl
    exact ⟨tensor.scale factor, rfl, rfl, List.length_map .., fun index ↦ List.getElem?_map⟩

/-- A tensor without axes has another shape than a row. An addition that failed has left an empty
stack, and two rows on top of it are subtracted the upper from the lower. -/
theorem Stack.tensors_elementwise_of_rows :
    let single : Tensor := ⟨[], [7.0]⟩
    let left : Tensor := ⟨[2], [1.0, 2.0]⟩
    let right : Tensor := ⟨[2], [10.0, 20.0]⟩
    let unlike := (Stack.empty.push (.tensor single)).push (.tensor left)
    let alike := (Stack.empty.push (.tensor left)).push (.tensor right)
    Stack.Reachable unlike ∧ Stack.Reachable alike ∧
      tensorAdd.stepOn unlike = (.empty, some (.shapeMismatch "T_ADD" [] [2])) ∧
      ∃ result : Tensor, tensorSub.stepOn alike = (Stack.empty.push (.tensor result), none) ∧
        result.shape = [2] ∧ result.data[1]? = some (2.0 - 20.0) := by
  intro single left right unlike alike
  have hsingle : StackValue.WellFormed (.tensor single) := rfl
  have hleft : StackValue.WellFormed (.tensor left) := rfl
  have hright : StackValue.WellFormed (.tensor right) := rfl
  have hunlike : Stack.Reachable unlike := (Reachable.empty.push hsingle).push hleft
  have hfailed : Stack.Reachable (tensorAdd.stepOn unlike).1 := hunlike.step nofun
  have halike : Stack.Reachable alike := (hfailed.push hleft).push hright
  obtain ⟨-, hothers, -⟩ := hunlike.tensors_elementwise
  obtain ⟨-, hrows, -⟩ := halike.tensors_elementwise
  obtain ⟨-, -, hmismatch⟩ := hothers _ _ _ rfl tensorAdd _ rfl
  obtain ⟨-, hshape, -⟩ := hrows _ _ _ rfl tensorSub _ rfl
  obtain ⟨result, hdone, hjoined⟩ := hshape rfl
  obtain ⟨x, y, hx, hy, hxy⟩ := hjoined.elements 1 (by decide)
  cases hx
  cases hy
  exact ⟨hunlike, halike, hmismatch nofun, result, hdone, hjoined.shape_eq, hxy⟩

end SpiralMachine
