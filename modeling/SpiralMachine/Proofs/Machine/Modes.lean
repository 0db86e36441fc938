import Mathlib.Data.List.Chain
import SpiralMachine.Proofs.Machine.Turn

/-!
# The modes of a run

A run starts in the mode that it is asked for, or in TRACE where a simulating run is to narrate. From
then on its mode stays as it is, or becomes FORK or ARM (`Mode.Follows`, `isChain_modes`). So
it never returns to another mode that it has left, and a run is still in such a mode exactly if none
of its turns has forked or armed the machine (`Leads.mode_eq_iff`).
-/

set_option autoImplicit false

namespace SpiralMachine

/-- What the mode of a run may become: it stays as it is, or becomes FORK or ARM. -/
def Mode.Follows (later earlier : Mode) : Prop :=
  later = earlier ∨ later = .fork ∨ later = .arm

theorem Mode.Follows.trans {first second third : Mode} (h : third.Follows second)
    (h' : second.Follows first) : third.Follows first := by
  rcases h with rfl | h
  · exact h'
  · exact .inr h

namespace Turn

variable (turn : Turn)

/-- The modes of a turn: at its instruction, after it, and in the end. -/
def modes : List Mode :=
  [turn.ready.machine.mode, turn.dispatch.after.mode, turn.stop.machine.mode]

theorem ready_follows : turn.ready.machine.mode.Follows turn.start.machine.mode := by
  rw [ready_mode]
  split
  · exact .inr (.inl rfl)
  · exact .inl rfl

theorem stop_follows : turn.stop.machine.mode.Follows turn.dispatch.after.mode := by
  rw [stop_mode, after_mode]
  split
  · exact .inr (.inr rfl)
  · exact .inl rfl

theorem arms_iff :
    turn.arms ↔ turn.ready.machine.mode ≠ .arm ∧ turn.stop.machine.mode = .arm := by
  simp [arms, after_mode]

/-- A turn that does not enter ARM leaves the mode that its instruction was carried out in. -/
theorem stop_mode_of_not_arms (h : ¬turn.arms) :
    turn.stop.machine.mode = turn.ready.machine.mode := by
  by_contra hne
  have harm : turn.stop.machine.mode = .arm := by
    rw [stop_mode] at hne ⊢
    split
    · rfl
    · rename_i hquiet
      rw [if_neg hquiet] at hne
      exact absurd rfl hne
  exact h (turn.arms_iff.mpr ⟨fun hready ↦ hne (harm.trans hready.symm), harm⟩)

/-- A turn ends in a mode other than FORK and ARM exactly if it begins in it, and neither forks nor
enters ARM. -/
theorem stop_mode_eq_iff {mode : Mode} (hfork : mode ≠ .fork) (harm : mode ≠ .arm) :
    turn.stop.machine.mode = mode ↔
      turn.start.machine.mode = mode ∧ ¬turn.forks ∧ ¬turn.arms := by
  constructor
  · rintro rfl
    have hquiet : ¬turn.arms := fun harms ↦ harm (turn.arms_iff.mp harms).2
    rw [turn.stop_mode_of_not_arms hquiet, ready_mode] at *
    by_cases hforks : turn.forks
    · rw [if_pos hforks] at hfork
      exact absurd rfl hfork
    · exact ⟨(if_neg hforks).symm, hforks, hquiet⟩
  · rintro ⟨rfl, hforks, hquiet⟩
    rw [turn.stop_mode_of_not_arms hquiet, ready_mode, if_neg hforks]

/-- The modes of turns in a row follow on each other. -/
theorem Leads.isChain_modes {flags : Config} {start final : Machine.Effect} {turns : List Turn}
    (h : Leads flags start turns final) :
    (start.machine.mode :: turns.flatMap modes).IsChain fun earlier later ↦
      later.Follows earlier := by
  induction h with
  | nil start => exact .singleton _
  | cons turn _ _ ih =>
    refine .cons_cons turn.ready_follows (.cons_cons (.inl turn.after_mode) ?_)
    exact .cons_cons turn.stop_follows ih

/-- Turns end in a mode other than FORK and ARM exactly if they begin in it, and none of them forks
or enters ARM. -/
theorem Leads.mode_eq_iff {flags : Config} {start final : Machine.Effect} {turns : List Turn}
    (h : Leads flags start turns final) {mode : Mode} (hfork : mode ≠ .fork)
    (harm : mode ≠ .arm) :
    final.machine.mode = mode ↔
      start.machine.mode = mode ∧ ∀ turn ∈ turns, ¬turn.forks ∧ ¬turn.arms := by
  induction h with
  | nil start => simp
  | cons turn _ _ ih =>
    rw [ih, turn.stop_mode_eq_iff hfork harm, List.forall_mem_cons, and_assoc]

end Turn

namespace Machine

/-- The modes of the run of a program in order: the one that it starts in, and those of its
turns. -/
def modes (machine : Machine) (host : Host) (program : Program) (mode : Mode) : List Mode :=
  startMode machine.config mode :: (machine.course host program mode).flatMap Turn.modes

/-- Every mode of a run follows all those before it. -/
theorem pairwise_modes (machine : Machine) (host : Host) (program : Program) (mode : Mode) :
    (machine.modes host program mode).Pairwise fun earlier later ↦ later.Follows earlier := by
  have : IsTrans Mode fun earlier later ↦ later.Follows earlier := ⟨fun _ _ _ h h' ↦ h'.trans h⟩
  exact List.isChain_iff_pairwise.mp (machine.leads_course host program mode).isChain_modes

end Machine

end SpiralMachine
