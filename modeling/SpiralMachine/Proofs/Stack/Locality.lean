import SpiralMachine.Proofs.Stack.Pairing

/-!
# Stack programs are local

A stack program does on top of other values what it does on an empty stack, and leaves them as they
are (`stepThrough_local`). It notices them only where without them it would find too few values: so
a run is set beside the same run over more values, and nothing more is asked once the first has
found too few (`Pairing.onTop`, `stepThrough_append`).
-/

set_option autoImplicit false

namespace SpiralMachine

/-- A run, and beside it the same run with more values at the bottom of its stack. -/
def Pairing.onTop (below : List StackValue) : Pairing where
  values := Eq
  below
  first cause := ∃ op, cause = .underflow op
  second _ := False
  values_refl _ := rfl
  form_eq h := congrArg StackValue.form h
  computed compute _ _ _ _ hleft hright _ := congrArg₂ compute hleft hright
  zero h := .inl (congrArg (· == 0.0) (StackValue.scalar.inj h))
  bottom := .inr fun op ↦ ⟨op, rfl⟩

theorem Pairing.stacks_onTop {below : List StackValue} {stack other : Stack StackValue} :
    (onTop below).Stacks stack other ↔ other.items = stack.items ++ below := by
  have heq {items above : List StackValue} :
      List.Forall₂ (onTop below).values items above ↔ items = above := by
    change List.Forall₂ Eq items above ↔ _
    rw [List.forall₂_eq_eq_eq]
  constructor
  · rintro ⟨above, hother, habove⟩
    rw [hother, heq.mp habove]
    rfl
  · exact fun h ↦ ⟨stack.items, h, heq.mpr rfl⟩

namespace StackInstruction

/-- With more values at the bottom of the stack a program does the same, unless it finds too few
without them. -/
theorem stepThrough_append (program : List StackInstruction) (items below : List StackValue) :
    let alone := stepThrough program ⟨items⟩
    (∃ place op, alone.2 = some (place, .underflow op)) ∨
      stepThrough program ⟨items ++ below⟩ = (⟨alone.1.items ++ below⟩, alone.2) := by
  have hprogram : List.Forall₂ (Pairing.onTop below).Instructions program program :=
    List.forall₂_same.mpr fun instruction _ ↦ .same instruction
  have hstacks : (Pairing.onTop below).Stacks ⟨items⟩ ⟨items ++ below⟩ :=
    Pairing.stacks_onTop.mpr rfl
  rcases Pairing.stepThrough_ends hprogram hstacks with
    ⟨place, _, hfailure, op, rfl⟩ | ⟨_, _, _, hfalse⟩ | ⟨hfailure, hstacks⟩
  · exact .inl ⟨place, op, hfailure⟩
  · exact hfalse.elim
  · refine .inr (Prod.ext ?_ hfailure.symm)
    exact congrArg Stack.mk (Pairing.stacks_onTop.mp hstacks)

/-- Unless it finds too few values on an empty stack, a program comes on any stack to the same end,
or to the same failure at the same place, and what it leaves of its own stands above what was
there. A machine that clears its stack first comes to one result and one stack, whatever it held. -/
theorem stepThrough_local (program : List StackInstruction) (base : Stack StackValue) :
    let alone := stepThrough program .empty
    let above := stepThrough program base
    (alone.2 = none → above.2 = none ∧ above.1.toList = base.toList ++ alone.1.toList) ∧
    (∀ place cause, alone.2 = some (place, cause) → (∀ op, cause ≠ .underflow op) →
      above.2 = some (place, cause) ∧ above.1.toList = base.toList ++ alone.1.toList) ∧
    ∀ stack, (runAfresh program).on stack =
      (alone.2.elim (.ok alone.1.toList) fun (_, cause) ↦ .error cause, alone.1) := by
  intro alone above
  have hsame (henough : ¬∃ place op, alone.2 = some (place, .underflow op)) :
      above.2 = alone.2 ∧ above.1.toList = base.toList ++ alone.1.toList := by
    have habove : above = (⟨alone.1.items ++ base.items⟩, alone.2) :=
      (stepThrough_append program [] base.items).resolve_left henough
    rw [habove]
    exact ⟨rfl, List.reverse_append⟩
  refine ⟨fun hnone ↦ ?_, fun place cause hfailure hcause ↦ ?_, runAfresh_on program⟩
  · rw [← hnone]
    refine hsame ?_
    rintro ⟨place, op, hfailure⟩
    exact nomatch hnone.symm.trans hfailure
  · rw [← hfailure]
    refine hsame ?_
    rintro ⟨_, op, hunderflow⟩
    cases hfailure.symm.trans hunderflow
    exact hcause op rfl

/-- A number below a tensor cannot be added to it, which shows when both are gone. What was pushed
before them is then left, above the value that was there, unless the stack was cleared first. -/
theorem local_of_mismatch :
    let base : Stack StackValue := ⟨[.scalar 5.0]⟩
    let tensor : StackValue := .tensor ⟨[2], [1.0, 2.0]⟩
    let pushes : List StackInstruction := [.push tensor, .push (.scalar 3.0), .push tensor]
    ((stepThrough pushes base).2 = none ∧
        (stepThrough pushes base).1.toList = base.toList ++ [tensor, .scalar 3.0, tensor]) ∧
      ((stepThrough (pushes ++ [.tensorAdd]) base).2 =
          some (3, .typeMismatch "T_ADD" "tensor") ∧
        (stepThrough (pushes ++ [.tensorAdd]) base).1.toList = base.toList ++ [tensor]) ∧
      (runAfresh (pushes ++ [.tensorAdd])).on base =
        (.error (.typeMismatch "T_ADD" "tensor"), ⟨[tensor]⟩) := by
  intro base tensor pushes
  obtain ⟨hend, -, -⟩ := stepThrough_local pushes base
  obtain ⟨-, hfailure, hafresh⟩ := stepThrough_local (pushes ++ [.tensorAdd]) base
  exact ⟨hend rfl, hfailure 3 (.typeMismatch "T_ADD" "tensor") rfl nofun, hafresh base⟩

end StackInstruction

end SpiralMachine
