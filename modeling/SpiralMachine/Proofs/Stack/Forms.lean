import SpiralMachine.Proofs.Stack.Pairing

/-!
# Kinds and shapes decide failures

How a stack program fails, if it does, is settled by the kinds of its values and the shapes of its
tensors, and so are the kinds and shapes that it leaves (`execute_forms`). Only of a division the
numbers decide whether it fails: so two runs over values of the same forms are set side by side, and
nothing more is asked once one of them divides by zero (`Pairing.ofForms`).
-/

set_option autoImplicit false

namespace SpiralMachine

/-- Two runs over values that have the same forms. -/
def Pairing.ofForms : Pairing where
  values value other := value.form = other.form
  below := []
  first cause := cause = .divisionByZero
  second cause := cause = .divisionByZero
  values_refl _ := rfl
  form_eq h := h
  computed _ _ _ _ _ _ _ h := h
  zero _ := .inr ⟨rfl, rfl⟩
  bottom := .inl rfl

theorem Pairing.stacks_ofForms {stack other : Stack StackValue} :
    ofForms.Stacks stack other ↔
      stack.items.map StackValue.form = other.items.map StackValue.form := by
  have heq {items above : List StackValue} :
      List.Forall₂ ofForms.values items above ↔
        items.map StackValue.form = above.map StackValue.form := by
    rw [← List.forall₂_eq_eq_eq, List.forall₂_map_left_iff, List.forall₂_map_right_iff]
    rfl
  constructor
  · rintro ⟨above, hother, habove⟩
    rw [hother, heq.mp habove]
    exact congrArg _ (List.append_nil above).symm
  · exact fun h ↦ ⟨other.items, (List.append_nil other.items).symm, heq.mpr h⟩

namespace StackInstruction

/-- Programs that are the same but for the numbers which they push, and of which neither divides by
zero, both come to their ends or both fail at the same place with the same error, and the values
they leave have the same kinds and shapes. -/
theorem execute_forms {program other : List StackInstruction}
    (hprogram : List.Forall₂ Pairing.ofForms.Instructions program other)
    (hfirst : (execute program).2 ≠ some .divisionByZero)
    (hsecond : (execute other).2 ≠ some .divisionByZero) :
    (stepThrough program .empty).2 = (stepThrough other .empty).2 ∧
      (execute program).2 = (execute other).2 ∧
      (execute program).1.toList.map StackValue.form =
        (execute other).1.toList.map StackValue.form := by
  rw [execute_eq] at hfirst hsecond ⊢
  rw [execute_eq]
  have hstacks : Pairing.ofForms.Stacks .empty .empty := Pairing.stacks_ofForms.mpr rfl
  rcases Pairing.stepThrough_ends hprogram hstacks with
    ⟨place, _, hfailure, rfl⟩ | ⟨place, _, hfailure, rfl⟩ | ⟨hfailure, hstacks⟩
  · exact absurd (congrArg (Option.map Prod.snd) hfailure) hfirst
  · exact absurd (congrArg (Option.map Prod.snd) hfailure) hsecond
  · refine ⟨hfailure, congrArg (Option.map Prod.snd) hfailure, ?_⟩
    have hforms := congrArg List.reverse (Pairing.stacks_ofForms.mp hstacks)
    rwa [← List.map_reverse, ← List.map_reverse] at hforms

/-- Two runs with different numbers meet the same tensors of different shapes, over a quotient. -/
theorem forms_of_mismatch :
    let program (dividend divisor element : Float) : List StackInstruction :=
      [.push (.scalar dividend), .push (.scalar divisor), .div,
        .push (.tensor ⟨[2], [element, divisor]⟩), .push (.tensor ⟨[1, 1], [element]⟩), .tensorAdd]
    let first := program 6.0 3.0 1.0
    let second := program 0.0 (-0.5) 2.0
    (execute first).2 ≠ some .divisionByZero ∧ (execute second).2 ≠ some .divisionByZero ∧
      (stepThrough second .empty).2 = some (5, .shapeMismatch "T_ADD" [2] [1, 1]) ∧
      (execute second).1.toList.map StackValue.form = [.scalar] := by
  intro program first second
  have hscalars (x y : Float) :
      Pairing.ofForms.Instructions (.push (.scalar x)) (.push (.scalar y)) := .push rfl
  have htensors (shape : List Nat) (xs ys : List Float) :
      Pairing.ofForms.Instructions (.push (.tensor ⟨shape, xs⟩)) (.push (.tensor ⟨shape, ys⟩)) :=
    .push rfl
  have hprogram : List.Forall₂ Pairing.ofForms.Instructions first second :=
    .cons (hscalars _ _) <| .cons (hscalars _ _) <| .cons (.same .div) <|
      .cons (htensors _ _ _) <| .cons (htensors _ _ _) <| .cons (.same .tensorAdd) .nil
  have hmismatch : (stepThrough first .empty).2 = some (5, .shapeMismatch "T_ADD" [2] [1, 1]) := rfl
  have hfirst : (execute first).2 ≠ some .divisionByZero := by
    rw [execute_eq, hmismatch]
    exact nofun
  have hsecond : (execute second).2 ≠ some .divisionByZero := by
    rw [execute_eq]
    exact nofun
  obtain ⟨hfailure, -, hforms⟩ := execute_forms hprogram hfirst hsecond
  exact ⟨hfirst, hsecond, hfailure.symm.trans hmismatch, hforms.symm⟩

end StackInstruction

end SpiralMachine
