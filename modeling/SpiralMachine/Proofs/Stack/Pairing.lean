import Mathlib.Data.List.Forall2
import SpiralMachine.Proofs.Stack.StepThrough

/-!
# Two runs of the stack machine side by side

A pairing says which values of two runs go together, what the second run has at the bottom of its
stack that the first has not, and after which failures nothing more is asked. Computations are
`Related` if from stacks that go together they come to stacks that go together, with the same
failure or with results that go together. The operations of the machine are related to themselves,
and what is put together from related computations is related (`Related.bind`), so that each
instruction is (`related_step`). Programs whose instructions go together are stepped through side by
side, to the end or to the same failure at the same place (`stepThrough_ends`).
-/

set_option autoImplicit false

namespace SpiralMachine

/-- What there is to a value besides its numbers: its kind, and the shape of a tensor. -/
inductive StackValue.Form where
  | scalar
  | tensor (shape : List Nat)
  deriving DecidableEq, Repr

def StackValue.form : StackValue → Form
  | scalar _ => .scalar
  | tensor value => .tensor value.shape

/-- How two runs are set side by side: the values that go together, what the second run has below
all others, and the failures of the first and of the second run after which nothing more is
asked. -/
structure Pairing where
  values : StackValue → StackValue → Prop
  below : List StackValue
  first : StackError → Prop
  second : StackError → Prop
  values_refl : ∀ value, values value value
  form_eq : ∀ {value other}, values value other → value.form = other.form
  /-- What is computed from values that go together goes together, if it is of one form. -/
  computed : ∀ (compute : StackValue → StackValue → StackValue) {left right otherLeft otherRight},
    values left otherLeft → values right otherRight →
      (compute left right).form = (compute otherLeft otherRight).form →
      values (compute left right) (compute otherLeft otherRight)
  zero : ∀ {divisor other}, values (.scalar divisor) (.scalar other) →
    (divisor == 0.0) = (other == 0.0) ∨ (first .divisionByZero ∧ second .divisionByZero)
  bottom : below = [] ∨ ∀ op, first (.underflow op)

namespace Pairing

variable (pairing : Pairing)

/-- Stacks that go together. -/
def Stacks (stack other : Stack StackValue) : Prop :=
  ∃ above, other.items = above ++ pairing.below ∧ List.Forall₂ pairing.values stack.items above

/-- Ends of two runs that go together, or of which one has failed so that nothing more is asked. -/
inductive Ends {α β : Type} (results : α → β → Prop) :
    Except StackError α × Stack StackValue → Except StackError β × Stack StackValue → Prop
  | done {result other} {stack otherStack} (hresults : results result other)
      (hstacks : pairing.Stacks stack otherStack) :
      Ends results (.ok result, stack) (.ok other, otherStack)
  | failed {cause} {stack otherStack} (hstacks : pairing.Stacks stack otherStack) :
      Ends results (.error cause, stack) (.error cause, otherStack)
  | first {cause} {stack} (hcause : pairing.first cause) (stop) :
      Ends results (.error cause, stack) stop
  | second {cause} {stack} (hcause : pairing.second cause) (stop) :
      Ends results stop (.error cause, stack)

/-- Computations that come from stacks that go together to ends that go together. -/
def Related {α β : Type} (results : α → β → Prop) (one : StackM α) (other : StackM β) : Prop :=
  ∀ stack otherStack, pairing.Stacks stack otherStack →
    pairing.Ends results (one.on stack) (other.on otherStack)

variable {pairing} {α β γ δ : Type} {results : α → β → Prop} {finals : γ → δ → Prop}

theorem Stacks.push {stack other : Stack StackValue} {value otherValue : StackValue}
    (h : pairing.Stacks stack other) (hvalue : pairing.values value otherValue) :
    pairing.Stacks (stack.push value) (other.push otherValue) := by
  obtain ⟨above, hother, habove⟩ := h
  exact ⟨otherValue :: above, congrArg (otherValue :: ·) hother, .cons hvalue habove⟩

theorem related_pure {result : α} {other : β} (h : results result other) :
    pairing.Related results (pure result) (pure other) := fun _ _ hstacks ↦ .done h hstacks

theorem related_throw (cause : StackError) :
    pairing.Related results (throw cause) (throw cause) := fun _ _ hstacks ↦ .failed hstacks

/-- One computation after another is related to one after another. -/
theorem Related.bind {one : StackM α} {other : StackM β} {next : α → StackM γ}
    {otherNext : β → StackM δ} (h : pairing.Related results one other)
    (hnext : ∀ result otherResult, results result otherResult →
      pairing.Related finals (next result) (otherNext otherResult)) :
    pairing.Related finals (one >>= next) (other >>= otherNext) := by
  intro stack otherStack hstacks
  have hends := h stack otherStack hstacks
  rw [StackM.on_bind, StackM.on_bind]
  generalize one.on stack = stop at hends ⊢
  generalize other.on otherStack = otherStop at hends ⊢
  cases hends with
  | done hresults hrest => exact hnext _ _ hresults _ _ hrest
  | failed hrest => exact .failed hrest
  | first hcause => exact .first hcause _
  | second hcause => exact .second hcause _

/-! ### The operations of the machine -/

theorem related_push {value other : StackValue} (h : pairing.values value other) :
    pairing.Related (fun _ _ ↦ True) (StackM.push value) (StackM.push other) :=
  fun _ _ hstacks ↦ .done trivial (hstacks.push h)

/-- An operation that takes or looks at the top of the stack. Where the first run has nothing left
the second has nothing either, or else nothing more is asked. -/
theorem related_top {op : String} {one : StackM α} {other : StackM β}
    (hempty : ∀ stack, stack.items = [] → one.on stack = (.error (.underflow op), stack))
    (hempty' : ∀ stack, stack.items = [] → other.on stack = (.error (.underflow op), stack))
    (hpush : ∀ {stack otherStack value otherValue}, pairing.Stacks stack otherStack →
      pairing.values value otherValue →
      pairing.Ends results (one.on (stack.push value)) (other.on (otherStack.push otherValue))) :
    pairing.Related results one other := by
  rintro ⟨items⟩ ⟨otherItems⟩ ⟨above, hother, habove⟩
  dsimp only at hother habove
  subst hother
  cases habove with
  | nil =>
    rw [hempty ⟨[]⟩ rfl]
    rcases pairing.bottom with hbelow | hfirst
    · rw [hempty' ⟨[] ++ pairing.below⟩ hbelow]
      exact .failed ⟨[], rfl, .nil⟩
    · exact .first (hfirst op) _
  | cons hvalue habove => exact hpush ⟨_, rfl, habove⟩ hvalue

theorem related_pop (op : String) :
    pairing.Related pairing.values (StackM.pop op) (StackM.pop op) := by
  have hempty (stack : Stack StackValue) (h : stack.items = []) :
      (StackM.pop op).on stack = (.error (.underflow op), stack) := by
    obtain ⟨items⟩ := stack
    cases h
    rfl
  exact related_top hempty hempty fun hstacks hvalue ↦ .done hvalue hstacks

theorem related_popScalar (op : String) :
    pairing.Related (fun value other ↦ pairing.values (.scalar value) (.scalar other))
      (StackM.popScalar op) (StackM.popScalar op) := by
  refine (related_pop op).bind fun value other hvalue ↦ ?_
  have hform := pairing.form_eq hvalue
  cases value <;> cases other
  · exact related_pure hvalue
  · cases hform
  · cases hform
  · exact related_throw _

theorem related_popTensor (op : String) :
    pairing.Related (fun value other ↦ pairing.values (.tensor value) (.tensor other))
      (StackM.popTensor op) (StackM.popTensor op) := by
  refine (related_pop op).bind fun value other hvalue ↦ ?_
  have hform := pairing.form_eq hvalue
  cases value <;> cases other
  · exact related_throw _
  · cases hform
  · cases hform
  · exact related_pure hvalue

theorem shape_eq {tensor other : Tensor} (h : pairing.values (.tensor tensor) (.tensor other)) :
    tensor.shape = other.shape :=
  StackValue.Form.tensor.inj (pairing.form_eq h)

/-- Scalars that are computed from scalars that go together. -/
theorem values_scalar (compute : Float → Float → Float) {left right otherLeft otherRight : Float}
    (hleft : pairing.values (.scalar left) (.scalar otherLeft))
    (hright : pairing.values (.scalar right) (.scalar otherRight)) :
    pairing.values (.scalar (compute left right)) (.scalar (compute otherLeft otherRight)) :=
  pairing.computed
    (fun left right ↦ .scalar (compute (left.scalar?.getD 0.0) (right.scalar?.getD 0.0)))
    hleft hright rfl

/-- Scalars are joined alike if what they are joined to is pushed alike. -/
theorem related_joinScalars (op : String) (join : Float → Float → Except StackError Float)
    (hjoin : ∀ {left right otherLeft otherRight},
      pairing.values (.scalar left) (.scalar otherLeft) →
      pairing.values (.scalar right) (.scalar otherRight) →
      pairing.Related (fun _ _ ↦ True)
        (match join left right with
          | .ok value => StackM.push (.scalar value)
          | .error cause => throw cause)
        (match join otherLeft otherRight with
          | .ok value => StackM.push (.scalar value)
          | .error cause => throw cause)) :
    pairing.Related (fun _ _ ↦ True) (StackM.joinScalars op join) (StackM.joinScalars op join) :=
  (related_popScalar op).bind fun _ _ hright ↦ (related_popScalar op).bind fun _ _ hleft ↦
    hjoin hleft hright

theorem related_arithmetic (op : String) (compute : Float → Float → Float) :
    pairing.Related (fun _ _ ↦ True)
      (StackM.joinScalars op fun left right ↦ .ok (compute left right))
      (StackM.joinScalars op fun left right ↦ .ok (compute left right)) :=
  related_joinScalars op _ fun hleft hright ↦ related_push (values_scalar compute hleft hright)

theorem related_quotient (op : String) :
    pairing.Related (fun _ _ ↦ True) (StackM.joinScalars op StackInstruction.quotient)
      (StackM.joinScalars op StackInstruction.quotient) := by
  refine related_joinScalars op _ fun {left right otherLeft otherRight} hleft hright ↦ ?_
  have hpush := related_push (values_scalar (· / ·) hleft hright)
  have hzero := pairing.zero hright
  unfold StackInstruction.quotient
  cases hdivisor : right == 0.0 <;> cases hother : otherRight == 0.0
  · exact hpush
  · -- the runs divide by different numbers, of which one is zero
    rw [hdivisor, hother] at hzero
    intro stack otherStack hstacks
    exact .second (hzero.resolve_left nofun).2 _
  · rw [hdivisor, hother] at hzero
    intro stack otherStack hstacks
    exact .first (hzero.resolve_left nofun).1 _
  · exact related_throw _

/-- Tensors are joined alike, since they have the same shapes. -/
theorem related_joinTensors (op name : String) (join : Float → Float → Float) :
    pairing.Related (fun _ _ ↦ True) (StackM.joinTensors op (Tensor.zipWith name join))
      (StackM.joinTensors op (Tensor.zipWith name join)) := by
  refine (related_popTensor op).bind fun right otherRight hright ↦
    (related_popTensor op).bind fun left otherLeft hleft ↦ ?_
  unfold Tensor.zipWith
  rw [← shape_eq hleft, ← shape_eq hright]
  by_cases hshape : left.shape = right.shape
  · rw [if_pos hshape, if_pos hshape]
    exact related_push <| pairing.computed
      (fun left' right' ↦ .tensor
        ⟨left.shape, List.zipWith join (left'.tensor?.getD ⟨[], []⟩).data
          (right'.tensor?.getD ⟨[], []⟩).data⟩)
      hleft hright rfl
  · rw [if_neg hshape, if_neg hshape]
    exact related_throw _

theorem related_dup : pairing.Related (fun _ _ ↦ True) StackInstruction.dup.step
    StackInstruction.dup.step := by
  have hempty (stack : Stack StackValue) (h : stack.items = []) :
      StackInstruction.dup.step.on stack = (.error (.underflow "DUP"), stack) := by
    obtain ⟨items⟩ := stack
    cases h
    rfl
  exact related_top hempty hempty fun hstacks hvalue ↦
    .done trivial ((hstacks.push hvalue).push hvalue)

/-! ### Instructions and programs -/

/-- Instructions that go together: they push values that do, or are the same. -/
inductive Instructions (pairing : Pairing) : StackInstruction → StackInstruction → Prop
  | push {value other} (h : pairing.values value other) :
      Instructions pairing (.push value) (.push other)
  | same (instruction) : Instructions pairing instruction instruction

/-- Instructions that go together do the same to stacks that go together. -/
theorem related_step {instruction other : StackInstruction}
    (h : pairing.Instructions instruction other) :
    pairing.Related (fun _ _ ↦ True) instruction.step other.step := by
  cases h with
  | push hvalue => exact related_push hvalue
  | same instruction =>
    cases instruction with
    | push value => exact related_push (pairing.values_refl value)
    | pop => exact (related_pop "POP").bind fun _ _ _ ↦ related_pure trivial
    | dup => exact related_dup
    | swap =>
      exact (related_pop "SWAP").bind fun _ _ hright ↦ (related_pop "SWAP").bind fun _ _ hleft ↦
        (related_push hright).bind fun _ _ _ ↦ related_push hleft
    | add => exact related_arithmetic "ADD" (· + ·)
    | sub => exact related_arithmetic "SUB" (· - ·)
    | mul => exact related_arithmetic "MUL" (· * ·)
    | div => exact related_quotient "DIV"
    | tensorAdd => exact related_joinTensors "T_ADD" "T_ADD" (· + ·)
    | tensorSub => exact related_joinTensors "T_SUB" "T_SUB" (· - ·)
    | tensorMul => exact related_joinTensors "T_MUL" "T_MUL" (· * ·)
    | tensorScale =>
      refine (related_popScalar "T_SCALE").bind fun factor otherFactor hfactor ↦
        (related_popTensor "T_SCALE").bind fun tensor other htensor ↦ related_push ?_
      have hshape := shape_eq htensor
      have hscaled := pairing.computed
        (fun tensor factor ↦
          .tensor ((tensor.tensor?.getD ⟨[], []⟩).scale (factor.scalar?.getD 0.0)))
        htensor hfactor (congrArg StackValue.Form.tensor hshape)
      exact hscaled
    | tensorSum =>
      refine (related_popTensor "T_SUM").bind fun tensor other htensor ↦ related_push ?_
      have hsum := pairing.computed (fun tensor _ ↦ .scalar (tensor.tensor?.getD ⟨[], []⟩).sum)
        htensor htensor rfl
      exact hsum

end Pairing

open StackInstruction in
/-- Programs whose instructions go together, on stacks that do, come to their ends or fail alike at
the same place, and leave stacks that go together. -/
theorem Pairing.stepThrough_ends {pairing : Pairing} {program other : List StackInstruction}
    (hprogram : List.Forall₂ pairing.Instructions program other)
    {stack otherStack : Stack StackValue} (hstacks : pairing.Stacks stack otherStack) :
    (∃ place cause, (stepThrough program stack).2 = some (place, cause) ∧ pairing.first cause) ∨
      (∃ place cause,
        (stepThrough other otherStack).2 = some (place, cause) ∧ pairing.second cause) ∨
      (stepThrough program stack).2 = (stepThrough other otherStack).2 ∧
        pairing.Stacks (stepThrough program stack).1 (stepThrough other otherStack).1 := by
  induction hprogram generalizing stack otherStack with
  | nil => exact .inr (.inr ⟨rfl, hstacks⟩)
  | @cons instruction otherInstruction rest otherRest hinstruction _ ih =>
    have hends := related_step hinstruction stack otherStack hstacks
    rw [stepThrough_cons, stepThrough_cons]
    generalize instruction.step.on stack = stop at hends ⊢
    generalize otherInstruction.step.on otherStack = otherStop at hends ⊢
    cases hends with
    | failed hleft => exact .inr (.inr ⟨rfl, hleft⟩)
    | first hcause => exact .inl ⟨0, _, rfl, hcause⟩
    | second hcause => exact .inr (.inl ⟨0, _, rfl, hcause⟩)
    | done _ hleft =>
      dsimp only
      rcases ih hleft with ⟨place, cause, hfailure, hcause⟩ | ⟨place, cause, hfailure, hcause⟩ |
        ⟨hfailure, hstacks⟩
      · exact .inl ⟨place + 1, cause, by rw [hfailure]; rfl, hcause⟩
      · exact .inr (.inl ⟨place + 1, cause, by rw [hfailure]; rfl, hcause⟩)
      · exact .inr (.inr ⟨by rw [hfailure], hstacks⟩)

end SpiralMachine
