import SpiralMachine.Proofs.Machine.Dispatch

/-!
# Machines that agree

Two machines agree if they have the same core and the same log, whatever else they hold. Where
no instruction is `bloom`, machines that agree carry out the same instructions alike as long as
their node budgets are the same: `perform_agrees` says so of one step, `runSteps_agrees` of
steps in a row, and `execute_agrees` of whole programs. Modes, flags, forks, sinks, hosts and
the history of faults make no difference to any of them.
-/

set_option autoImplicit false

namespace SpiralMachine.Machine

/-- The same core and the same log. -/
structure Agrees (machine other : Machine) : Prop where
  core : machine.toCore = other.toCore
  log : machine.log = other.log

variable {machine other : Machine} {flags otherFlags : Config}

/-- Where machines agree, the same instruction is dispatched with the same result. -/
theorem Agrees.dispatched (h : machine.Agrees other)
    (hbudget : flags.maxMeshNodes = otherFlags.maxMeshNodes) {step otherStep : Step}
    (hinstruction : step.instruction = otherStep.instruction) (hbloom : step.instruction ≠ .bloom)
    (host otherHost : Host) :
    let dispatch := machine.dispatched host flags step
    let otherDispatch := other.dispatched otherHost otherFlags otherStep
    dispatch.after.toCore = otherDispatch.after.toCore ∧
      dispatch.fatal? = otherDispatch.fatal? ∧ dispatch.entry = otherDispatch.entry := by
  obtain ⟨hafter, hfatal⟩ := dispatched_after machine host flags step
  obtain ⟨hotherAfter, hotherFatal⟩ := dispatched_after other otherHost otherFlags otherStep
  rw [Core.apply_of_ne_bloom hbloom _ _ other.mansion.getLast?, h.core, hbudget, hinstruction]
    at hafter hfatal
  have hbefore := dispatched_before machine host flags step
  have hotherBefore := dispatched_before other otherHost otherFlags otherStep
  have hcores := hafter.trans hotherAfter.symm
  refine ⟨hcores, hfatal.trans hotherFatal.symm, ?_⟩
  unfold Dispatch.entry
  rw [hcores, hbefore, hotherBefore, h.core]
  exact congrArg (fun instruction ↦ logEntry instruction.opcode _ _) hinstruction

/-- Machines that agree still do after the same instruction. -/
theorem perform_agrees (h : machine.Agrees other)
    (hbudget : flags.maxMeshNodes = otherFlags.maxMeshNodes) {step otherStep : Step}
    (hinstruction : step.instruction = otherStep.instruction) (hbloom : step.instruction ≠ .bloom)
    (host otherHost : Host) :
    (machine.perform host flags step).1.machine.Agrees
      (other.perform otherHost otherFlags otherStep).1.machine := by
  obtain ⟨hcore, -, hentry⟩ := h.dispatched hbudget hinstruction hbloom host otherHost
  obtain ⟨_, _, _, _, -, hperform⟩ := perform_machine machine host flags step
  obtain ⟨_, _, _, _, -, hotherPerform⟩ := perform_machine other otherHost otherFlags otherStep
  rw [hperform, hotherPerform]
  refine ⟨hcore, ?_⟩
  dsimp only
  rw [h.log, hentry]

/-- Machines that agree still do after the same instructions, and the budget ends both runs or
neither. -/
theorem runSteps_agrees (h : machine.Agrees other)
    (hbudget : flags.maxMeshNodes = otherFlags.maxMeshNodes) {steps otherSteps : List Step}
    (hsteps : steps.map Step.instruction = otherSteps.map Step.instruction)
    (hbloom : .bloom ∉ steps.map Step.instruction) (host otherHost : Host)
    (faults otherFaults : Nat) :
    let progress := runSteps flags steps machine host faults
    let otherProgress := runSteps otherFlags otherSteps other otherHost otherFaults
    progress.machine.Agrees otherProgress.machine ∧ progress.failure = otherProgress.failure := by
  induction steps generalizing machine other otherSteps host otherHost faults otherFaults with
  | nil =>
    cases otherSteps with
    | nil => exact ⟨h, rfl⟩
    | cons otherStep otherRest => cases hsteps
  | cons step rest ih =>
    cases otherSteps with
    | nil => cases hsteps
    | cons otherStep otherRest =>
      obtain ⟨hinstruction, hrest⟩ := List.cons.inj hsteps
      have hne : step.instruction ≠ .bloom :=
        fun heq ↦ hbloom (heq ▸ List.mem_cons_self ..)
      obtain ⟨-, hfatal, -⟩ := h.dispatched hbudget hinstruction hne host otherHost
      have hnext := perform_agrees h hbudget hinstruction hne host otherHost
      rw [runSteps_cons_eq, runSteps_cons_eq, hfatal]
      dsimp only
      cases (other.dispatched otherHost otherFlags otherStep).fatal? with
      | some error => exact ⟨hnext, rfl⟩
      | none => exact ih hnext hrest (fun hmem ↦ hbloom (List.mem_cons_of_mem _ hmem)) _ _ _ _

/-- A run reports an exhausted budget exactly if its steps came to an end there. -/
theorem execute_capacityExceeded_iff (machine : Machine) (host : Host) (program : Program)
    (mode : Mode) {current max : Nat} :
    (machine.execute host program mode).2 = .error (.capacityExceeded current max) ↔
      (runSteps machine.config program.steps (machine.started program mode) host 0).failure =
        some (.capacityExceeded current max) := by
  rw [execute_eq]
  dsimp only
  split
  · rename_i hfailure
    rw [hfailure, Except.error.injEq, Option.some.injEq]
  · rename_i hfailure _
    rw [hfailure]
    exact ⟨nofun, nofun⟩
  · rename_i hfailure _
    rw [hfailure]
    exact ⟨nofun, nofun⟩

/-- Machines that agree and have the same budget still agree after programs of the same
instructions, and the budget ends both runs or neither, in whatever modes and hosts they
run. -/
theorem execute_agrees (h : machine.Agrees other)
    (hbudget : machine.config.maxMeshNodes = other.config.maxMeshNodes)
    {program otherProgram : Program}
    (hsteps : program.steps.map Step.instruction = otherProgram.steps.map Step.instruction)
    (hbloom : .bloom ∉ program.steps.map Step.instruction) (host otherHost : Host)
    (mode otherMode : Mode) :
    let run := machine.execute host program mode
    let otherRun := other.execute otherHost otherProgram otherMode
    run.1.machine.Agrees otherRun.1.machine ∧
      ∀ current max, run.2 = .error (.capacityExceeded current max) ↔
        otherRun.2 = .error (.capacityExceeded current max) := by
  have hstarted : (machine.started program mode).Agrees (other.started otherProgram otherMode) :=
    ⟨h.core, h.log⟩
  obtain ⟨hagrees, hfailure⟩ :=
    runSteps_agrees hstarted hbudget hsteps hbloom host otherHost 0 0
  dsimp only at hfailure ⊢
  refine ⟨?_, fun current max ↦ ?_⟩
  · rw [execute_machine, execute_machine]
    exact hagrees
  · rw [execute_capacityExceeded_iff, execute_capacityExceeded_iff, hfailure]

end SpiralMachine.Machine
