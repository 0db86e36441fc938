import SpiralMachine.Proofs.Machine.Agreement
import SpiralMachine.Proofs.Machine.Audit

/-!
# What does not matter to a run

Modes, flags, fork marks, event sinks and hosts decide what a run tells and what it writes.
`execute_indifferent` says that they decide nothing else: two machines that have the same core,
log, mansion, failures and node budget have the same after the same instructions. The one
exception is `save`. Whether it is skipped, succeeds or fails hangs on the mode, the flags and the
files, and its fault goes to the failures and the mansion. From there only `bloom` brings
anything back, so without `bloom` the cores and the logs still agree.

`Alike` is the relation between two such machines. A step keeps it (`perform_alike`), since
apart from `save` what becomes of an instruction is settled by the core, the budget and the last
lesson (`dispatched_outcome`).
-/

set_option autoImplicit false

namespace SpiralMachine

namespace Change

/-- What becomes of an instruction, by what it makes of the core. -/
def outcome (budget : Nat) : Change → Outcome
  | .applied _ => .applied
  | .fault cause => .recoverable cause
  | .full core => .fatal (.capacityExceeded core.mesh.size budget)

end Change

namespace Machine

/-- The same core and history, at the same place. -/
structure Alike (machine other : Machine) : Prop extends machine.Agrees other where
  mansion : machine.mansion = other.mansion
  failures : machine.failures = other.failures
  ip : machine.ip = other.ip

/-- What becomes of an instruction is settled by the core, the node budget and the last lesson,
unless it is a save. -/
theorem dispatched_outcome (machine : Machine) (host : Host) (flags : Config) {step : Step}
    (hsave : ∀ path, step.instruction ≠ .save path) :
    (machine.dispatched host flags step).outcome =
      (machine.toCore.apply flags.maxMeshNodes machine.mansion.getLast? step.instruction).outcome
        flags.maxMeshNodes := by
  obtain ⟨mode, forkCount, forks, hprepare⟩ := prepare_machine machine host flags step
  unfold dispatched
  dsimp only
  generalize (machine.prepare host flags step).host = host
  rw [hprepare]
  unfold dispatch
  dsimp only
  split <;> rename_i hchange <;> rw [hchange]
  · rfl
  · rfl
  · split
    · rfl
    · rename_i path hpath
      exact absurd hpath (hsave path)
    · rfl

variable {machine other : Machine} {flags otherFlags : Config}

/-- Where machines are alike, the same instruction other than a save is dispatched with the same
result. -/
theorem Alike.dispatched (h : machine.Alike other)
    (hbudget : flags.maxMeshNodes = otherFlags.maxMeshNodes) {step otherStep : Step}
    (hinstruction : step.instruction = otherStep.instruction)
    (hsave : ∀ path, step.instruction ≠ .save path) (host otherHost : Host) :
    let dispatch := machine.dispatched host flags step
    let otherDispatch := other.dispatched otherHost otherFlags otherStep
    dispatch.instruction = otherDispatch.instruction ∧
      dispatch.before.toCore = otherDispatch.before.toCore ∧
      dispatch.after.toCore = otherDispatch.after.toCore ∧
      dispatch.outcome = otherDispatch.outcome := by
  obtain ⟨hafter, -⟩ := dispatched_after machine host flags step
  obtain ⟨hotherAfter, -⟩ := dispatched_after other otherHost otherFlags otherStep
  have houtcome := dispatched_outcome machine host flags hsave
  have hotherOutcome := dispatched_outcome other otherHost otherFlags
    (fun path ↦ hinstruction ▸ hsave path)
  rw [h.core, h.mansion, hbudget, hinstruction] at hafter houtcome
  have hbefore := dispatched_before machine host flags step
  have hotherBefore := dispatched_before other otherHost otherFlags otherStep
  exact ⟨hinstruction, (hbefore.trans h.core).trans hotherBefore.symm,
    hafter.trans hotherAfter.symm, houtcome.trans hotherOutcome.symm⟩

/-- Machines that are alike still are after the same instruction, unless that is a save. -/
theorem perform_alike (h : machine.Alike other)
    (hbudget : flags.maxMeshNodes = otherFlags.maxMeshNodes) {step otherStep : Step}
    (hinstruction : step.instruction = otherStep.instruction)
    (hsave : ∀ path, step.instruction ≠ .save path) (host otherHost : Host) :
    (machine.perform host flags step).1.machine.Alike
      (other.perform otherHost otherFlags otherStep).1.machine := by
  obtain ⟨_, _, _, _, -, hperform⟩ := perform_machine machine host flags step
  obtain ⟨_, _, _, _, -, hotherPerform⟩ := perform_machine other otherHost otherFlags otherStep
  have hmansion := perform_mansion machine host flags step
  have hotherMansion := perform_mansion other otherHost otherFlags otherStep
  have hsame := h.dispatched hbudget hinstruction hsave host otherHost
  dsimp only at hmansion hotherMansion hsame
  generalize machine.dispatched host flags step = dispatch at *
  generalize other.dispatched otherHost otherFlags otherStep = otherDispatch at *
  obtain ⟨hopcode, hbefore, hafter, houtcome⟩ := hsame
  refine { core := ?_, log := ?_, mansion := ?_, failures := ?_, ip := ?_ }
  · rw [hperform, hotherPerform]
    exact hafter
  · rw [hperform, hotherPerform]
    unfold Dispatch.entry
    dsimp only
    rw [h.log, hopcode, hbefore, hafter]
  · rw [hmansion, hotherMansion]
    unfold Dispatch.lesson? Dispatch.fault? Dispatch.fatal?
    rw [h.mansion, h.ip, hbefore, hafter, houtcome]
  · rw [hperform, hotherPerform]
    unfold Dispatch.failure? Dispatch.fault?
    dsimp only
    rw [h.failures, h.ip, hopcode, houtcome]
  · rw [hperform, hotherPerform]
    exact congrArg (· + 1) h.ip

/-- Machines that are alike still are after the same instructions without a save, and the budget
ends both runs or neither. -/
theorem runSteps_alike (h : machine.Alike other)
    (hbudget : flags.maxMeshNodes = otherFlags.maxMeshNodes) {steps otherSteps : List Step}
    (hsteps : steps.map Step.instruction = otherSteps.map Step.instruction)
    (hsave : ∀ path, .save path ∉ steps.map Step.instruction) (host otherHost : Host)
    (faults otherFaults : Nat) :
    let progress := runSteps flags steps machine host faults
    let otherProgress := runSteps otherFlags otherSteps other otherHost otherFaults
    progress.machine.Alike otherProgress.machine ∧ progress.failure = otherProgress.failure := by
  induction steps generalizing machine other otherSteps host otherHost faults otherFaults with
  | nil =>
    cases otherSteps with
    | nil => exact ⟨h, rfl⟩
    | cons otherStep otherRest => cases hsteps
  | cons step rest ih =>
    cases otherSteps with
    | nil => cases hsteps
    | cons otherStep otherRest =>
      obtain ⟨hinstruction, hrest⟩ := List.cons.inj hsteps
      have hne : ∀ path, step.instruction ≠ .save path :=
        fun path heq ↦ hsave path (heq ▸ List.mem_cons_self ..)
      obtain ⟨-, -, -, houtcome⟩ := h.dispatched hbudget hinstruction hne host otherHost
      have hfatal : (machine.dispatched host flags step).fatal? =
          (other.dispatched otherHost otherFlags otherStep).fatal? := by
        unfold Dispatch.fatal?
        rw [houtcome]
      have hnext := perform_alike h hbudget hinstruction hne host otherHost
      rw [runSteps_cons_eq, runSteps_cons_eq, hfatal]
      dsimp only
      cases (other.dispatched otherHost otherFlags otherStep).fatal? with
      | some error => exact ⟨hnext, rfl⟩
      | none =>
        exact ih hnext hrest (fun path hmem ↦ hsave path (List.mem_cons_of_mem _ hmem)) _ _ _ _

/-- Two machines with the same mesh, registers, depth, log, mansion, failures and node budget run
the same instructions, in whatever modes and hosts, with whatever other flags and sinks and
whichever steps ask for a fork. Without a save they end with the same of all these, and both
exhaust the budget with the same numbers or neither does. With saves, but without `bloom`,
this still holds of all but the mansion and the failures. -/
theorem execute_indifferent (hmesh : machine.mesh = other.mesh)
    (hregisters : machine.registers = other.registers)
    (hdepth : machine.spiralDepth = other.spiralDepth) (hlog : machine.log = other.log)
    (hmansion : machine.mansion = other.mansion) (hfailures : machine.failures = other.failures)
    (hbudget : machine.config.maxMeshNodes = other.config.maxMeshNodes)
    {program otherProgram : Program}
    (hsteps : program.steps.map Step.instruction = otherProgram.steps.map Step.instruction)
    (host otherHost : Host) (mode otherMode : Mode) :
    let run := machine.execute host program mode
    let otherRun := other.execute otherHost otherProgram otherMode
    ((∀ path, .save path ∉ program.steps.map Step.instruction) →
      run.1.machine.mesh = otherRun.1.machine.mesh ∧
      run.1.machine.registers = otherRun.1.machine.registers ∧
      run.1.machine.spiralDepth = otherRun.1.machine.spiralDepth ∧
      run.1.machine.log = otherRun.1.machine.log ∧
      run.1.machine.mansion = otherRun.1.machine.mansion ∧
      run.1.machine.failures = otherRun.1.machine.failures ∧
      ∀ current max, run.2 = .error (.capacityExceeded current max) ↔
        otherRun.2 = .error (.capacityExceeded current max)) ∧
    (.bloom ∉ program.steps.map Step.instruction →
      run.1.machine.mesh = otherRun.1.machine.mesh ∧
      run.1.machine.registers = otherRun.1.machine.registers ∧
      run.1.machine.spiralDepth = otherRun.1.machine.spiralDepth ∧
      run.1.machine.log = otherRun.1.machine.log ∧
      ∀ current max, run.2 = .error (.capacityExceeded current max) ↔
        otherRun.2 = .error (.capacityExceeded current max)) := by
  have hcore : machine.toCore = other.toCore := by
    show Core.mk machine.mesh machine.registers machine.spiralDepth = _
    rw [hmesh, hregisters, hdepth]
  dsimp only
  refine ⟨fun hsave ↦ ?_, fun hbloom ↦ ?_⟩
  · have hstarted : (machine.started program mode).Alike (other.started otherProgram otherMode) :=
      { core := hcore, log := hlog, mansion := hmansion, failures := hfailures, ip := rfl }
    obtain ⟨halike, hfailure⟩ := runSteps_alike hstarted hbudget hsteps hsave host otherHost 0 0
    rw [execute_machine, execute_machine]
    refine ⟨congrArg Core.mesh halike.core, congrArg Core.registers halike.core,
      congrArg Core.spiralDepth halike.core, halike.log, halike.mansion, halike.failures,
      fun current max ↦ ?_⟩
    rw [execute_capacityExceeded_iff, execute_capacityExceeded_iff]
    exact iff_of_eq (congrArg (· = _) hfailure)
  · obtain ⟨hagrees, hcapacity⟩ :=
      execute_agrees ⟨hcore, hlog⟩ hbudget hsteps hbloom host otherHost mode otherMode
    exact ⟨congrArg Core.mesh hagrees.core, congrArg Core.registers hagrees.core,
      congrArg Core.spiralDepth hagrees.core, hagrees.log, hcapacity⟩

/-- One machine narrates to a sink that takes nothing, the other forks and tells of numbers that
are far apart. They learn the same of a fault, and `bloom` makes the same of it; with saves, of
which one is skipped and one refused, and without `bloom`, they still have the same log. -/
theorem execute_indifferent_of_failing_sink :
    let machine := Machine.new
      { Config.default with dryRun := true, narrativeMode := true } (.journal "")
    let other := Machine.new
      { Config.default with forkTracking := true, resonanceThreshold := 0.0 } .memory
    let host : Host := ⟨.empty, [], 0⟩
    let marked (instructions : List Instruction) : Program :=
      ⟨instructions.map fun instruction ↦ { instruction, forks := true }⟩
    let learning := [.init false, .spiral 1 .a, .seek (some "ghost") .b, .sync 0.0 9.0, .bloom]
    let saving := [.mesh none none, .save (some "\x00"), .spec]
    ((machine.execute host (.ofInstructions learning) .simulate).1.machine.mansion =
        (other.execute host (marked learning) .execute).1.machine.mansion ∧
      (machine.execute host (.ofInstructions learning) .simulate).1.machine.registers =
        (other.execute host (marked learning) .execute).1.machine.registers) ∧
      (machine.execute host (.ofInstructions saving) .trace).1.machine.log =
        (other.execute host (.ofInstructions saving) .execute).1.machine.log := by
  intro machine other host marked learning saving
  have hmarked : (Program.ofInstructions learning).steps.map Step.instruction =
      (marked learning).steps.map Step.instruction := rfl
  have hsave (path : Option String) :
      .save path ∉ (Program.ofInstructions learning).steps.map Step.instruction := by
    simp [learning, Program.ofInstructions]
  have hbloom : .bloom ∉ (Program.ofInstructions saving).steps.map Step.instruction := by
    simp [saving, Program.ofInstructions]
  have hmesh : machine.mesh = other.mesh := rfl
  obtain ⟨-, hregisters, -, -, hmansion, -, -⟩ := (execute_indifferent hmesh
    rfl rfl rfl rfl rfl rfl hmarked host host .simulate .execute).1 hsave
  obtain ⟨-, -, -, hlog, -⟩ := (execute_indifferent hmesh
    rfl rfl rfl rfl rfl rfl rfl host host .trace .execute).2 hbloom
  exact ⟨⟨hmansion, hregisters⟩, hlog⟩

/-- A save and `bloom` together give the mode away. Where the save may write it fails, since
register B is infinite; its fault is learned with register A, and ends up in register C. -/
example :
    let registers := (RegisterFile.zero.set .a .seed).set .b ⟨1.0 / 0.0, 0.0, 0.0, 0.0⟩
    let machine := { new .default .none with registers }
    let leaving (mode : Mode) := (runSteps .default
      (Program.ofInstructions [.save none, .bloom]).steps
      (machine.started .empty mode) ⟨.empty, [], 0⟩ 0).machine.registers.c
    (leaving .simulate).isZero = true ∧ (leaving .execute).isZero = false := by
  decide +kernel

end Machine

end SpiralMachine
