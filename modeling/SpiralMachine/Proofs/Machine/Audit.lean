import SpiralMachine.Proofs.Machine.Dispatch

/-!
# What audits find

A step that does not end its run is followed by an audit, if one is due. What the audit adds to
the mansion is settled by the core that the step leaves and by the place of the next step
(`Core.findings`), so that everything a step adds to the mansion can be read off its dispatch
(`perform_mansion`). No mode, flag or sink has a part in it.
-/

set_option autoImplicit false

namespace SpiralMachine

/-- The finding of an audit before the step at `place`, if one is due there and the mesh is
incoherent. -/
def Core.findings (core : Core) (place : Nat) : List Lesson :=
  if 0 < core.spiralDepth.toNat ∧ place % core.spiralDepth.toNat = 0 ∧
      ¬core.mesh.resonance ≥ goldenInverse then
    [.of .resonanceCollapse core.registers.a collapseLesson]
  else []

/-- A finding is a collapse, noted with register A. -/
theorem Core.mem_findings {core : Core} {place : Nat} {lesson : Lesson}
    (h : lesson ∈ core.findings place) :
    lesson = .of .resonanceCollapse core.registers.a collapseLesson := by
  unfold findings at h
  split at h
  · exact List.mem_singleton.mp h
  · cases h

namespace Machine

theorem auditIsDue_iff {machine : Machine} : machine.auditIsDue ↔
    0 < machine.spiralDepth.toNat ∧ machine.ip % machine.spiralDepth.toNat = 0 := by
  simp [auditIsDue]

/-- Moving on notes and tells what an audit finds at the next place, and may arm the machine. -/
theorem advance_eq (machine : Machine) (host : Host) :
    let found := machine.toCore.findings (machine.ip + 1)
    machine.advance host =
      if found = [] then ⟨{ machine with ip := machine.ip + 1 }, host⟩
      else
        { machine with ip := machine.ip + 1, mansion := machine.mansion ++ found }.arm
          (host.emit machine.sink "resonance_collapse"
            [("ip", .integer (machine.ip + 1 : Nat)),
              ("resonance", scoreJson machine.mesh.resonance),
              ("spiral_depth", .integer machine.spiralDepth.toNat)])
          machine.mesh.resonance := by
  dsimp only
  unfold advance
  by_cases hdue : { machine with ip := machine.ip + 1 }.auditIsDue
  · obtain ⟨hpos, hmod⟩ := auditIsDue_iff.mp hdue
    by_cases hcoherent : machine.mesh.resonance ≥ goldenInverse
    · have hfound : machine.toCore.findings (machine.ip + 1) = [] :=
        if_neg fun h ↦ h.2.2 hcoherent
      rw [hfound, if_pos hdue, if_pos rfl]
      exact if_pos hcoherent
    · have hfound : machine.toCore.findings (machine.ip + 1) =
          [.of .resonanceCollapse machine.registers.a collapseLesson] :=
        if_pos ⟨hpos, hmod, hcoherent⟩
      rw [hfound, if_pos hdue, if_neg (List.cons_ne_nil _ _)]
      exact if_neg hcoherent
  · have hfound : machine.toCore.findings (machine.ip + 1) = [] :=
      if_neg fun h ↦ hdue (auditIsDue_iff.mpr ⟨h.1, h.2.1⟩)
    rw [hfound, if_neg hdue, if_pos rfl]

/-- Moving on adds the findings at the next place to the mansion. -/
theorem advance_mansion (machine : Machine) (host : Host) :
    (machine.advance host).machine.mansion =
      machine.mansion ++ machine.toCore.findings (machine.ip + 1) := by
  rw [advance_eq]
  by_cases hfound : machine.toCore.findings (machine.ip + 1) = []
  · rw [if_pos hfound, hfound, List.append_nil]
  · rw [if_neg hfound]
    obtain ⟨mode, harm⟩ := arm_machine
      { machine with
        ip := machine.ip + 1
        mansion := machine.mansion ++ machine.toCore.findings (machine.ip + 1) } _
      machine.mesh.resonance
    exact congrArg Machine.mansion harm

/-- Arming enters ARM if the machine has learned enough, and leaves the mode alone otherwise. -/
theorem arm_mode (machine : Machine) (host : Host) (resonance : Float) :
    (machine.arm host resonance).machine.mode =
      if armLimit < machine.mansion.length then .arm else machine.mode := by
  unfold arm
  by_cases hlearned : armLimit < machine.mansion.length
  · rw [if_pos hlearned]
    by_cases harmed : machine.mode = .arm
    · rw [if_neg fun h ↦ h.2 harmed]
      exact harmed
    · rw [if_pos ⟨hlearned, harmed⟩]
      rfl
  · rw [if_neg hlearned, if_neg fun h ↦ hlearned h.1]

/-- An audit that finds something arms the machine once it has learned enough, and nothing else
changes the mode after an instruction. -/
theorem advance_mode (machine : Machine) (host : Host) :
    (machine.advance host).machine.mode =
      if machine.toCore.findings (machine.ip + 1) ≠ [] ∧
          armLimit < (machine.advance host).machine.mansion.length then .arm
      else machine.mode := by
  rw [advance_mansion, advance_eq]
  by_cases hfound : machine.toCore.findings (machine.ip + 1) = []
  · rw [if_pos hfound, if_neg fun h ↦ h.1 hfound]
  · rw [if_neg hfound, arm_mode]
    simp only [ne_eq, hfound, not_false_eq_true, true_and]

/-- All that a step adds to the mansion: the lesson of its dispatch, and the findings at the next
place unless the step ends the run. -/
theorem perform_mansion (machine : Machine) (host : Host) (flags : Config) (step : Step) :
    let dispatch := machine.dispatched host flags step
    (machine.perform host flags step).1.machine.mansion =
      machine.mansion ++ (dispatch.lesson?.toList ++
        if dispatch.fatal?.isSome then []
        else dispatch.after.toCore.findings (machine.ip + 1)) := by
  obtain ⟨mode, forkCount, forks, hprepare⟩ := prepare_machine machine host flags step
  unfold perform measured dispatched
  dsimp only
  generalize (machine.prepare host flags step).host = host
  rw [hprepare]
  generalize hready : ({ machine with mode, forkCount, forks } : Machine) = ready
  obtain ⟨core, hcore⟩ := dispatch_machine ready host flags step.instruction
  cases houtcome : (ready.dispatch host flags step.instruction).2 with
  | applied =>
    dsimp only
    rw [advance_mansion, hcore, ← hready]
    simp [Dispatch.lesson?, Dispatch.fault?, Dispatch.fatal?]
  | recoverable fault =>
    dsimp only
    rw [advance_mansion, dispatch_recoverable houtcome, ← hready]
    simp [Dispatch.lesson?, Dispatch.fault?, Dispatch.fatal?, recordFault]
  | fatal error =>
    dsimp only
    rw [hcore, ← hready]
    simp [Dispatch.lesson?, Dispatch.fault?, Dispatch.fatal?]

end Machine

end SpiralMachine
