/-!
# Changing a state in place

A program in `EStateM` reads and writes a state and may stop anywhere, with what it has written so
far. What comes of it is read off step by step: a success goes on where it has arrived
(`bind_of_ok`), a failure stays where it is (`bind_of_error`), and changes in a row are a fold
(`forM_modify`).
-/

set_option autoImplicit false

namespace SpiralMachine

variable {ε σ α β : Type}

/-- What comes after a success goes on from its value and its state. -/
theorem bind_of_ok {first : EStateM ε σ α} {next : α → EStateM ε σ β} {state reached : σ}
    {value : α} (h : first state = .ok value reached) :
    (first >>= next) state = next value reached := by
  change EStateM.bind first next state = _
  rw [EStateM.bind, h]

/-- What comes after a failure does not come. -/
theorem bind_of_error {first : EStateM ε σ α} {next : α → EStateM ε σ β} {state reached : σ}
    {cause : ε} (h : first state = .error cause reached) :
    (first >>= next) state = .error cause reached := by
  change EStateM.bind first next state = _
  rw [EStateM.bind, h]

/-- One change after another comes to what they make together. -/
theorem forM_modify (items : List α) (change : σ → α → σ) (state : σ) :
    (items.forM fun item ↦ (modify (change · item) : EStateM ε σ Unit)) state =
      .ok () (items.foldl change state) := by
  induction items generalizing state with
  | nil => rfl
  | cons item rest ih => exact ih (change state item)

end SpiralMachine
