import SpiralMachine.Machine.Run
import SpiralMachine.Proofs.Core.Change

/-!
# What a step changes

A run carries out its instructions one by one. A `Turn` is one step of a run with the machine and
the host that it is given, and `turns` lists the turns of a run in order; `turns_getElem?` finds
each of them where the run of the steps before it leads. A `Dispatch` is the instruction of a turn
as it was carried out, with the machine before and after it, and `dispatches` lists those of a run.

Everything a step does to a machine is read off its dispatch. `perform` is one step, and
`runSteps_cons` says that a run goes on from where a step leads. What a step does around its
instruction changes the mode, the forks and the place (`prepare_machine`, `advance_machine`),
and the mansion by findings of audits alone; the log, the failures and the core change as
the dispatch says (`perform_machine`). A run preserves whatever its steps preserve
(`runSteps_invariant`). What a dispatch makes of the core is settled by the core, the budget and
the last lesson (`dispatched_after`), so that it also preserves whatever the instructions
preserve (`runSteps_core`).
-/

set_option autoImplicit false

namespace SpiralMachine

/-- One instruction as it was carried out. -/
structure Dispatch where
  instruction : Instruction
  before : Machine
  after : Machine
  outcome : Outcome

namespace Dispatch

/-- The entry a dispatch leaves in the resonance log. -/
def entry (dispatch : Dispatch) : ResonanceEntry :=
  Machine.logEntry dispatch.instruction.opcode dispatch.before.mesh.resonance
    dispatch.after.mesh.resonance

/-- The fault a dispatch met, if the run recovered from it. -/
def fault? (dispatch : Dispatch) : Option Fault :=
  match dispatch.outcome with
  | .recoverable fault => some fault
  | _ => none

theorem fault?_eq_some_iff {dispatch : Dispatch} {fault : Fault} :
    dispatch.fault? = some fault ↔ dispatch.outcome = .recoverable fault := by
  unfold fault?
  split <;> simp_all

/-- The error that ended the run, if the dispatch met one. -/
def fatal? (dispatch : Dispatch) : Option RunError :=
  match dispatch.outcome with
  | .fatal error => some error
  | _ => none

/-- The failure that is noted of a dispatch, the instruction `ip` of its program. -/
def failure? (dispatch : Dispatch) (ip : Nat) : Option Failure :=
  dispatch.fault?.map fun fault ↦
    { op := dispatch.instruction.opcode.name, ip, error := fault.message }

/-- The lesson that is noted of a dispatch. -/
def lesson? (dispatch : Dispatch) : Option Lesson :=
  dispatch.fault?.map fun fault ↦
    .of .exception dispatch.before.registers.a fault.message

/-- Of what a step adds to the mansion, the lesson of its dispatch alone is of a failed
instruction. -/
theorem filter_lesson? (dispatch : Dispatch) {found : List Lesson}
    (hfound : ∀ lesson ∈ found, lesson.kind = .resonanceCollapse) :
    (dispatch.lesson?.toList ++ found).filter (·.kind = .exception) =
      dispatch.lesson?.toList := by
  have hnone : found.filter (·.kind = .exception) = [] :=
    List.filter_eq_nil_iff.mpr fun lesson hlesson ↦ by simp [hfound lesson hlesson]
  rw [List.filter_append, hnone, List.append_nil, List.filter_eq_self]
  intro lesson hlesson
  obtain ⟨fault, -, rfl⟩ := Option.map_eq_some_iff.mp (Option.mem_toList.mp hlesson)
  rfl

/-- Dispatches that lead from one core to another, each finding what the one before it left. -/
def Linked : Core → List Dispatch → Core → Prop
  | start, [], stop => stop = start
  | start, dispatch :: rest, stop =>
    dispatch.before.toCore = start ∧ Linked dispatch.after.toCore rest stop

end Dispatch

namespace Machine

/-! ### Around an instruction -/

/-- Narrating leaves the machine alone. -/
theorem narrate_machine (machine : Machine) (host : Host) (flags : Config) (op : Opcode) :
    (machine.narrate host flags op).machine = machine := by
  unfold narrate
  split <;> rfl

/-- Before its instruction a step enters a fork, if it asks for one and the flags allow it. -/
theorem prepare_eq (machine : Machine) (host : Host) (flags : Config) (step : Step) :
    (machine.prepare host flags step).machine =
      if flags.forkTracking && step.forks then
        { machine with
          mode := .fork
          forkCount := machine.forkCount + 1
          forks := machine.forks ++ [machine.forkCount + 1] }
      else machine := by
  unfold prepare
  rw [narrate_machine]
  split <;> rfl

/-- Before its instruction a step changes the mode and the forks, and nothing else. -/
theorem prepare_machine (machine : Machine) (host : Host) (flags : Config) (step : Step) :
    ∃ mode forkCount forks,
      (machine.prepare host flags step).machine = { machine with mode, forkCount, forks } := by
  rw [prepare_eq]
  split
  · exact ⟨_, _, _, rfl⟩
  · exact ⟨machine.mode, machine.forkCount, machine.forks, rfl⟩

/-- Arming changes the mode, and nothing else. -/
theorem arm_machine (machine : Machine) (host : Host) (resonance : Float) :
    ∃ mode, (machine.arm host resonance).machine = { machine with mode } := by
  unfold arm
  split
  · exact ⟨.arm, rfl⟩
  · exact ⟨machine.mode, rfl⟩

/-- Moving on changes the place and the mode, and adds findings of an audit to the mansion. -/
theorem advance_machine (machine : Machine) (host : Host) :
    ∃ mode found, (∀ lesson ∈ found, lesson.kind = .resonanceCollapse) ∧
      (machine.advance host).machine =
        { machine with ip := machine.ip + 1, mode, mansion := machine.mansion ++ found } := by
  have hnothing : ∃ mode found, (∀ lesson ∈ found, lesson.kind = .resonanceCollapse) ∧
      ({ machine with ip := machine.ip + 1 } : Machine) =
        { machine with ip := machine.ip + 1, mode, mansion := machine.mansion ++ found } :=
    ⟨machine.mode, [], by simp, by rw [List.append_nil]⟩
  unfold advance
  dsimp only
  split
  · unfold audit
    dsimp only
    split
    · exact hnothing
    · obtain ⟨mode, hmode⟩ := arm_machine
        { machine with
          ip := machine.ip + 1
          mansion := machine.mansion ++
            [.of .resonanceCollapse machine.registers.a collapseLesson] } _
        machine.mesh.resonance
      refine ⟨mode, [.of .resonanceCollapse machine.registers.a collapseLesson], ?_, hmode⟩
      intro lesson hlesson
      rw [List.mem_singleton.mp hlesson]
      rfl
  · exact hnothing

/-! ### The instruction itself -/

/-- An instruction makes of a machine what it makes of its core. -/
theorem dispatch_machine_eq (machine : Machine) (host : Host) (flags : Config)
    (instruction : Instruction) :
    (machine.dispatch host flags instruction).1.machine =
      { machine with
        toCore := (machine.toCore.apply flags.maxMeshNodes machine.mansion.getLast?
          instruction).result machine.toCore } := by
  unfold dispatch
  split <;> rename_i hchange <;> rw [hchange]
  · rfl
  · rfl
  · split <;> rfl

/-- An instruction changes the core, and nothing else. -/
theorem dispatch_machine (machine : Machine) (host : Host) (flags : Config)
    (instruction : Instruction) :
    ∃ core, (machine.dispatch host flags instruction).1.machine =
      { machine with toCore := core } :=
  ⟨_, machine.dispatch_machine_eq host flags instruction⟩

/-- Saving either takes place or is a fault; it ends no run. -/
theorem saveOpcode_outcome (machine : Machine) (host : Host) (flags : Config)
    (path : Option String) :
    (machine.saveOpcode host flags path).2 = .applied ∨
      ∃ fault, (machine.saveOpcode host flags path).2 = .recoverable fault := by
  unfold saveOpcode
  dsimp only
  split
  · exact .inl rfl
  · split
    · exact .inr ⟨_, rfl⟩
    · exact .inl rfl

/-- A fault leaves the machine as it was. -/
theorem dispatch_recoverable {machine : Machine} {host : Host} {flags : Config}
    {instruction : Instruction} {fault : Fault}
    (h : (machine.dispatch host flags instruction).2 = .recoverable fault) :
    (machine.dispatch host flags instruction).1.machine = machine := by
  unfold dispatch at h ⊢
  split at h
  · rfl
  · cases h
  · rename_i core hcore
    split at h
    · cases h
    · -- saving is the one instruction that can fail after it was applied
      cases hcore
      rfl
    · cases h

/-- An instruction that ends the run has met a full mesh, and nothing was done after that. -/
theorem dispatch_eq_of_fatal {machine : Machine} {host : Host} {flags : Config}
    {instruction : Instruction} {error : RunError}
    (h : (machine.dispatch host flags instruction).2 = .fatal error) :
    ∃ core,
      machine.toCore.apply flags.maxMeshNodes machine.mansion.getLast? instruction = .full core ∧
      machine.dispatch host flags instruction =
        (⟨{ machine with toCore := core }, host⟩,
          .fatal (.capacityExceeded core.mesh.size flags.maxMeshNodes)) := by
  unfold dispatch at h ⊢
  split at h
  · cases h
  · rename_i core hfull
    exact ⟨core, hfull, rfl⟩
  · split at h
    · cases h
    · rename_i path _
      dsimp only at h
      rcases machine.saveOpcode_outcome host flags path with houtcome | ⟨fault, houtcome⟩
      · exact absurd (houtcome.symm.trans h) nofun
      · exact absurd (houtcome.symm.trans h) nofun
    · cases h

/-- Only an exhausted node budget ends a run, and it is reported as it stands. -/
theorem dispatch_fatal {machine : Machine} {host : Host} {flags : Config}
    {instruction : Instruction} {error : RunError}
    (h : (machine.dispatch host flags instruction).2 = .fatal error) :
    error = .capacityExceeded (machine.dispatch host flags instruction).1.machine.mesh.size
      flags.maxMeshNodes := by
  obtain ⟨core, -, hdispatch⟩ := dispatch_eq_of_fatal h
  rw [hdispatch] at h ⊢
  cases h
  rfl

/-! ### One step -/

/-- The dispatch of a step. -/
def dispatched (machine : Machine) (host : Host) (flags : Config) (step : Step) : Dispatch :=
  let ready := machine.prepare host flags step
  let (done, outcome) := ready.machine.dispatch ready.host flags step.instruction
  { instruction := step.instruction, before := ready.machine, after := done.machine, outcome }

/-- One step of a run, and what became of its instruction. -/
def perform (machine : Machine) (host : Host) (flags : Config) (step : Step) :
    Effect × Outcome :=
  let ready := machine.prepare host flags step
  let (done, outcome) := ready.machine.measured ready.host flags step.instruction
  match outcome with
  | .applied => (done.machine.advance done.host, .applied)
  | .recoverable fault =>
    ((done.machine.recordFault step.instruction.opcode fault).advance done.host,
      .recoverable fault)
  | .fatal error =>
    (⟨{ done.machine with ip := done.machine.ip + 1 }, done.host⟩, .fatal error)

@[simp]
theorem runSteps_nil (flags : Config) (machine : Machine) (host : Host) (faults : Nat) :
    runSteps flags [] machine host faults = { machine, host, faults, failure := none } :=
  rfl

/-- A run goes on from where its first step leads, unless that step ends it. -/
theorem runSteps_cons (flags : Config) (step : Step) (rest : List Step) (machine : Machine)
    (host : Host) (faults : Nat) :
    runSteps flags (step :: rest) machine host faults =
      match machine.perform host flags step with
      | (next, .applied) => runSteps flags rest next.machine next.host faults
      | (next, .recoverable _) => runSteps flags rest next.machine next.host (faults + 1)
      | (next, .fatal error) => { toEffect := next, faults, failure := some error } := by
  rw [runSteps, perform]
  dsimp only
  cases ((machine.prepare host flags step).machine.measured (machine.prepare host flags step).host
    flags step.instruction).2 <;> rfl

theorem perform_outcome (machine : Machine) (host : Host) (flags : Config) (step : Step) :
    (machine.perform host flags step).2 = (machine.dispatched host flags step).outcome := by
  unfold perform dispatched measured
  dsimp only
  split <;> rename_i h <;> exact h.symm

/-- A dispatch that ends a run reports the node budget and the size of the mesh it leaves. -/
theorem dispatched_fatal {machine : Machine} {host : Host} {flags : Config} {step : Step}
    {error : RunError} (h : (machine.dispatched host flags step).fatal? = some error) :
    error = .capacityExceeded (machine.dispatched host flags step).after.mesh.size
      flags.maxMeshNodes := by
  unfold Dispatch.fatal? at h
  split at h
  · rename_i houtcome
    cases h
    exact dispatch_fatal houtcome
  · cases h

/-- What a dispatch finds is the core that its step was given. -/
theorem dispatched_before (machine : Machine) (host : Host) (flags : Config) (step : Step) :
    (machine.dispatched host flags step).before.toCore = machine.toCore := by
  obtain ⟨mode, forkCount, forks, hprepare⟩ := prepare_machine machine host flags step
  unfold dispatched
  dsimp only
  rw [hprepare]

/-- What a dispatch makes of the core and whether it ends the run is settled by the core, the
node budget, the last lesson and the instruction. -/
theorem dispatched_after (machine : Machine) (host : Host) (flags : Config) (step : Step) :
    let change := machine.toCore.apply flags.maxMeshNodes machine.mansion.getLast? step.instruction
    let dispatch := machine.dispatched host flags step
    dispatch.after.toCore = change.result machine.toCore ∧
      dispatch.fatal? = change.error? flags.maxMeshNodes := by
  obtain ⟨mode, forkCount, forks, hprepare⟩ := prepare_machine machine host flags step
  unfold dispatched Dispatch.fatal?
  dsimp only
  generalize (machine.prepare host flags step).host = host
  rw [hprepare]
  unfold dispatch
  dsimp only
  split <;> rename_i hchange <;> rw [hchange]
  · exact ⟨rfl, rfl⟩
  · exact ⟨rfl, rfl⟩
  · split
    · exact ⟨rfl, rfl⟩
    · rename_i path _
      dsimp only
      refine ⟨rfl, ?_⟩
      rcases saveOpcode_outcome { machine with mode, forkCount, forks } host flags path with
        houtcome | ⟨fault, houtcome⟩ <;> rw [houtcome] <;> rfl
    · exact ⟨rfl, rfl⟩

/-- A dispatch that the run recovers from leaves what it found. -/
theorem dispatched_recoverable {machine : Machine} {host : Host} {flags : Config} {step : Step}
    {fault : Fault} (h : (machine.dispatched host flags step).fault? = some fault) :
    (machine.dispatched host flags step).after = (machine.dispatched host flags step).before :=
  dispatch_recoverable (Dispatch.fault?_eq_some_iff.mp h)

/-- All that a step changes, read off its dispatch. -/
theorem perform_machine (machine : Machine) (host : Host) (flags : Config) (step : Step) :
    let dispatch := machine.dispatched host flags step
    ∃ mode forkCount forks found, (∀ lesson ∈ found, lesson.kind = .resonanceCollapse) ∧
      (machine.perform host flags step).1.machine =
        { machine with
          toCore := dispatch.after.toCore
          log := machine.log ++ [dispatch.entry]
          failures := ⟨machine.failures.failures ++ (dispatch.failure? machine.ip).toList⟩
          mansion := machine.mansion ++ (dispatch.lesson?.toList ++ found)
          ip := machine.ip + 1
          mode, forkCount, forks } := by
  obtain ⟨mode, forkCount, forks, hprepare⟩ := prepare_machine machine host flags step
  unfold perform measured dispatched
  dsimp only
  generalize (machine.prepare host flags step).host = host
  rw [hprepare]
  generalize hready : ({ machine with mode, forkCount, forks } : Machine) = ready
  obtain ⟨core, hcore⟩ := dispatch_machine ready host flags step.instruction
  generalize hlogged : ({ (ready.dispatch host flags step.instruction).1.machine with
    log := (ready.dispatch host flags step.instruction).1.machine.log ++
      [logEntry step.instruction.opcode ready.mesh.resonance
        (ready.dispatch host flags step.instruction).1.machine.mesh.resonance] } : Machine) = logged
  cases houtcome : (ready.dispatch host flags step.instruction).2 with
  | applied =>
    obtain ⟨mode, found, hfound, hadvance⟩ := advance_machine logged
      (ready.dispatch host flags step.instruction).1.host
    refine ⟨mode, forkCount, forks, found, hfound, ?_⟩
    dsimp only
    rw [hadvance, ← hlogged, hcore, ← hready]
    simp [Dispatch.failure?, Dispatch.lesson?, Dispatch.fault?, Dispatch.entry]
  | recoverable fault =>
    obtain ⟨mode, found, hfound, hadvance⟩ := advance_machine
      (logged.recordFault step.instruction.opcode fault)
      (ready.dispatch host flags step.instruction).1.host
    refine ⟨mode, forkCount, forks, found, hfound, ?_⟩
    dsimp only
    rw [hadvance, ← hlogged, dispatch_recoverable houtcome, ← hready]
    simp [Dispatch.failure?, Dispatch.lesson?, Dispatch.fault?, Dispatch.entry, recordFault,
      FailureLog.report]
  | fatal error =>
    refine ⟨mode, forkCount, forks, [], by simp, ?_⟩
    dsimp only
    rw [hcore, ← hready]
    simp [Dispatch.failure?, Dispatch.lesson?, Dispatch.fault?, Dispatch.entry]

end Machine

/-- A step of a run, and what it is given. -/
structure Turn where
  flags : Config
  start : Machine.Effect
  step : Step

namespace Turn

/-- The instruction of a turn as it is carried out. -/
def dispatch (turn : Turn) : Dispatch :=
  turn.start.machine.dispatched turn.start.host turn.flags turn.step

/-- What a turn leaves. -/
def stop (turn : Turn) : Machine.Effect :=
  (turn.start.machine.perform turn.start.host turn.flags turn.step).1

end Turn

namespace Machine

/-! ### A run of steps -/

/-- The turns of a run in order. The one that ends the run is the last. -/
def turns (flags : Config) : List Step → Effect → List Turn
  | [], _ => []
  | step :: rest, start =>
    let turn : Turn := { flags, start, step }
    turn :: if turn.dispatch.fatal? = none then turns flags rest turn.stop else []

/-- The dispatches of a run, one for each of its turns. -/
def dispatches (flags : Config) (steps : List Step) (machine : Machine) (host : Host) :
    List Dispatch :=
  (turns flags steps ⟨machine, host⟩).map Turn.dispatch

@[simp]
theorem dispatches_nil (flags : Config) (machine : Machine) (host : Host) :
    dispatches flags [] machine host = [] :=
  rfl

/-- The dispatches of a run go on after a step unless it ended the run. -/
theorem dispatches_cons (flags : Config) (step : Step) (rest : List Step) (machine : Machine)
    (host : Host) :
    let dispatch := machine.dispatched host flags step
    let next := (machine.perform host flags step).1
    dispatches flags (step :: rest) machine host =
      match dispatch.fatal? with
      | some _ => [dispatch]
      | none => dispatch :: dispatches flags rest next.machine next.host := by
  let turn : Turn := { flags, start := ⟨machine, host⟩, step }
  dsimp only
  rw [dispatches, turns, List.map_cons]
  change turn.dispatch :: _ = match turn.dispatch.fatal? with
    | some _ => [turn.dispatch]
    | none => turn.dispatch :: dispatches flags rest turn.stop.machine turn.stop.host
  by_cases hfatal : turn.dispatch.fatal? = none
  · rw [if_pos hfatal, hfatal]
    rfl
  · obtain ⟨error, herror⟩ := Option.ne_none_iff_exists'.mp hfatal
    rw [if_neg hfatal, herror]
    rfl

/-- A run that takes a step goes on, and a run that fails in a step ends there. -/
theorem runSteps_cons_eq (flags : Config) (step : Step) (rest : List Step) (machine : Machine)
    (host : Host) (faults : Nat) :
    let dispatch := machine.dispatched host flags step
    let next := (machine.perform host flags step).1
    runSteps flags (step :: rest) machine host faults =
      match dispatch.fatal? with
      | some error => { toEffect := next, faults, failure := some error }
      | none =>
        runSteps flags rest next.machine next.host (faults + dispatch.fault?.toList.length) := by
  have houtcome := perform_outcome machine host flags step
  dsimp only
  rw [runSteps_cons]
  unfold Dispatch.fatal? Dispatch.fault?
  rw [← houtcome]
  split <;> rename_i heq <;> rw [heq] <;> rfl

/-- All that a run changes, read off its dispatches. Of the lessons a run adds, those of
failed instructions are the lessons of its dispatches. -/
theorem runSteps_machine (flags : Config) (steps : List Step) (machine : Machine) (host : Host)
    (faults : Nat) :
    let run := dispatches flags steps machine host
    ∃ core mode forkCount forks added, Dispatch.Linked machine.toCore run core ∧
      added.filter (·.kind = .exception) = run.filterMap Dispatch.lesson? ∧
      (runSteps flags steps machine host faults).machine =
        { machine with
          toCore := core
          log := machine.log ++ run.map Dispatch.entry
          failures := ⟨machine.failures.failures ++
            (run.zipIdx machine.ip).filterMap fun (dispatch, ip) ↦ dispatch.failure? ip⟩
          mansion := machine.mansion ++ added
          ip := machine.ip + run.length
          mode, forkCount, forks } := by
  induction steps generalizing machine host faults with
  | nil =>
    refine ⟨machine.toCore, machine.mode, machine.forkCount, machine.forks, [], rfl, rfl, ?_⟩
    simp
  | cons step rest ih =>
    have hbefore := dispatched_before machine host flags step
    obtain ⟨mode, forkCount, forks, found, hfound, hperform⟩ :=
      perform_machine machine host flags step
    have hlessons := (machine.dispatched host flags step).filter_lesson? hfound
    dsimp only
    rw [runSteps_cons_eq, dispatches_cons]
    generalize machine.dispatched host flags step = dispatch at *
    cases hfatal : dispatch.fatal? with
    | some error =>
      refine ⟨_, mode, forkCount, forks, _, ⟨hbefore, rfl⟩, hlessons.trans ?_, ?_⟩
      · cases h : dispatch.lesson? <;> simp [h]
      · rw [hperform]
        cases h : dispatch.failure? machine.ip <;> simp [h]
    | none =>
      obtain ⟨core, mode, forkCount, forks, added, hlinked, hadded, hrest⟩ := ih
        (machine.perform host flags step).1.machine (machine.perform host flags step).1.host
        (faults + dispatch.fault?.toList.length)
      rw [hperform] at hlinked
      refine ⟨core, mode, forkCount, forks, dispatch.lesson?.toList ++ found ++ added,
        ⟨hbefore, by rwa [hperform]⟩, ?_, ?_⟩
      · rw [List.filter_append, hlessons, hadded]
        cases h : dispatch.lesson? <;> simp [h]
      · rw [hrest, hperform]
        cases h : dispatch.failure? machine.ip <;>
          simp [h, Nat.add_assoc, Nat.add_comm 1]

/-- What every step preserves of a machine is preserved by a run. -/
theorem runSteps_invariant (holds : Machine → Prop) {flags : Config}
    (hperform : ∀ machine host step, holds machine →
      holds (machine.perform host flags step).1.machine)
    (steps : List Step) {machine : Machine} (h : holds machine) (host : Host) (faults : Nat) :
    holds (runSteps flags steps machine host faults).machine := by
  induction steps generalizing machine host faults with
  | nil => exact h
  | cons step rest ih =>
    have hnext := hperform machine host step h
    rw [runSteps_cons_eq]
    split
    · exact hnext
    · exact ih hnext _ _

/-- What every instruction preserves of the core, with whatever budget and last lesson, is
preserved by a run. -/
theorem runSteps_core {holds : Core → Prop}
    (happly : ∀ core budget lesson instruction, holds core →
      holds ((core.apply budget lesson instruction).result core))
    (flags : Config) (steps : List Step) {machine : Machine} (h : holds machine.toCore)
    (host : Host) (faults : Nat) :
    holds (runSteps flags steps machine host faults).machine.toCore := by
  refine runSteps_invariant (fun reached ↦ holds reached.toCore) ?_ steps h host faults
  intro reached host step hreached
  obtain ⟨mode, forkCount, forks, found, -, hperform⟩ :=
    perform_machine reached host flags step
  rw [hperform, (dispatched_after reached host flags step).1]
  exact happly _ _ _ _ hreached

/-- How far a run comes and what it reports, read off its dispatches: it counts the faults
it recovered from, and it ends early exactly after a dispatch that failed for good. -/
theorem runSteps_outcome (flags : Config) (steps : List Step) (machine : Machine) (host : Host)
    (faults : Nat) :
    let run := dispatches flags steps machine host
    let progress := runSteps flags steps machine host faults
    progress.faults = faults + (run.filterMap Dispatch.fault?).length ∧
      (∀ dispatch ∈ run.dropLast, dispatch.fatal? = none) ∧
      progress.failure = run.getLast?.bind Dispatch.fatal? ∧
      run.map Dispatch.instruction = (steps.map Step.instruction).take run.length ∧
      (progress.failure = none → run.length = steps.length) := by
  induction steps generalizing machine host faults with
  | nil => simp
  | cons step rest ih =>
    have hinstruction : (machine.dispatched host flags step).instruction = step.instruction := rfl
    dsimp only
    rw [runSteps_cons_eq, dispatches_cons]
    generalize machine.dispatched host flags step = dispatch at *
    cases hfatal : dispatch.fatal? with
    | some error =>
      have hfault : dispatch.fault? = none := by
        unfold Dispatch.fatal? at hfatal
        unfold Dispatch.fault?
        split at hfatal <;> simp_all
      simp [hfatal, hfault, hinstruction]
    | none =>
      obtain ⟨hfaults, hearlier, hfailure, hmap, hlength⟩ := ih
        (machine.perform host flags step).1.machine (machine.perform host flags step).1.host
        (faults + dispatch.fault?.toList.length)
      generalize dispatches flags rest _ _ = later at *
      refine ⟨?_, ?_, ?_, ?_, ?_⟩
      · rw [hfaults]
        cases h : dispatch.fault? <;> simp [h, Nat.add_assoc, Nat.add_comm 1]
      · cases later with
        | nil => simp
        | cons next others => simpa [hfatal] using hearlier
      · rw [hfailure, List.getLast?_cons]
        cases later.getLast? with
        | none => simp [hfatal]
        | some last => simp
      · simp [hinstruction, hmap]
      · intro hnone
        simp [hlength hnone]

/-- The turn at `index` takes the step there, of the machine that the steps before it lead to. -/
theorem turns_getElem? (flags : Config) (steps : List Step) (start : Effect)
    (faults index : Nat) :
    (turns flags steps start)[index]? =
      steps[index]?.bind fun step ↦
        let reached := runSteps flags (steps.take index) start.machine start.host faults
        if reached.failure.isNone then some { flags, start := reached.toEffect, step }
        else none := by
  induction steps generalizing start faults index with
  | nil => rfl
  | cons step rest ih =>
    let turn : Turn := { flags, start, step }
    rw [turns]
    cases index with
    | zero => rfl
    | succ index =>
      dsimp only
      rw [List.take_succ_cons, runSteps_cons_eq, List.getElem?_cons_succ,
        List.getElem?_cons_succ]
      cases hfatal : turn.dispatch.fatal? with
      | some error =>
        change (start.machine.dispatched start.host flags step).fatal? = some error at hfatal
        rw [hfatal]
        simp
      | none =>
        change (start.machine.dispatched start.host flags step).fatal? = none at hfatal
        rw [hfatal]
        exact ih turn.stop _ _

/-- The dispatch at `index` is the one that the machine makes which the run of the steps
before it leads to. -/
theorem dispatches_getElem? (flags : Config) (steps : List Step) (machine : Machine)
    (host : Host) (faults index : Nat) :
    (dispatches flags steps machine host)[index]? =
      steps[index]?.bind fun step ↦
        let reached := runSteps flags (steps.take index) machine host faults
        if reached.failure.isNone then some (reached.machine.dispatched reached.host flags step)
        else none := by
  rw [dispatches, List.getElem?_map, turns_getElem? flags steps ⟨machine, host⟩ faults]
  cases steps[index]? with
  | none => rfl
  | some step =>
    dsimp only [Option.bind_some]
    split <;> rfl

/-- A run of one list of steps after another goes on from where the first leads, unless the
first ends early. -/
theorem runSteps_append (flags : Config) (first second : List Step) (machine : Machine)
    (host : Host) (faults : Nat) :
    let reached := runSteps flags first machine host faults
    runSteps flags (first ++ second) machine host faults =
      match reached.failure with
      | some _ => reached
      | none => runSteps flags second reached.machine reached.host reached.faults := by
  induction first generalizing machine host faults with
  | nil => rfl
  | cons step rest ih =>
    dsimp only
    rw [List.cons_append, runSteps_cons_eq, runSteps_cons_eq]
    cases (machine.dispatched host flags step).fatal? with
    | some error => rfl
    | none => exact ih _ _ _

/-- Every dispatch of a run is that of a step of the run, which its machine has come to. -/
theorem exists_of_mem_dispatches {flags : Config} {steps : List Step} {machine : Machine}
    {host : Host} {dispatch : Dispatch} (hmem : dispatch ∈ dispatches flags steps machine host) :
    ∃ step ∈ steps, ∃ reached host, dispatch = dispatched reached host flags step := by
  obtain ⟨index, hindex⟩ := List.mem_iff_getElem?.mp hmem
  rw [dispatches_getElem? flags steps machine host 0] at hindex
  obtain ⟨step, hstep, hdispatch⟩ := Option.bind_eq_some_iff.mp hindex
  dsimp only at hdispatch
  split at hdispatch
  · cases hdispatch
    exact ⟨step, List.mem_of_getElem? hstep, _, _, rfl⟩
  · cases hdispatch

/-- Only an exhausted node budget ends a run. -/
theorem fatal?_of_mem_dispatches {flags : Config} {steps : List Step} {machine : Machine}
    {host : Host} {dispatch : Dispatch} {error : RunError}
    (hmem : dispatch ∈ dispatches flags steps machine host)
    (hfatal : dispatch.fatal? = some error) :
    error = .capacityExceeded dispatch.after.mesh.size flags.maxMeshNodes := by
  obtain ⟨step, -, reached, host, rfl⟩ := exists_of_mem_dispatches hmem
  exact dispatched_fatal hfatal

/-- A run that ends early ends with the error of an exhausted node budget, which gives the size
of the mesh it leaves. -/
theorem runSteps_failure {flags : Config} {steps : List Step} {machine : Machine} {host : Host}
    {faults : Nat} {error : RunError}
    (h : (runSteps flags steps machine host faults).failure = some error) :
    error = .capacityExceeded (runSteps flags steps machine host faults).machine.mesh.size
      flags.maxMeshNodes := by
  induction steps generalizing machine host faults with
  | nil => cases h
  | cons step rest ih =>
    obtain ⟨_, _, _, _, -, hperform⟩ := perform_machine machine host flags step
    rw [runSteps_cons_eq] at h ⊢
    cases hfatal : (machine.dispatched host flags step).fatal? with
    | some cause =>
      rw [hfatal] at h
      cases h
      rw [hperform]
      exact dispatched_fatal hfatal
    | none =>
      rw [hfatal] at h
      exact ih h

/-! ### The run of a program -/

/-- A machine at the start of the run of a program. -/
def started (machine : Machine) (program : Program) (mode : Mode) : Machine :=
  { machine with mode := startMode machine.config mode, ip := 0, program }

/-- The dispatches of the run of a program. -/
def executed (machine : Machine) (host : Host) (program : Program) (mode : Mode) :
    List Dispatch :=
  dispatches machine.config program.steps (machine.started program mode) host

/-- A run that was not ended early is saved and reported. -/
theorem execute_eq (machine : Machine) (host : Host) (program : Program) (mode : Mode) :
    machine.execute host program mode =
      let progress := runSteps machine.config program.steps (machine.started program mode) host 0
      let saved := progress.machine.save progress.host machine.config.crystalPath
      match progress.failure, saved.2 with
      | some error, _ => (progress.toEffect, .error error)
      | none, some cause => (⟨progress.machine, saved.1⟩, .error (.persistence cause))
      | none, none =>
        (⟨progress.machine, saved.1⟩, .ok
          { instructions := program.size
            faults := progress.faults
            finalResonance := progress.machine.mesh.resonance
            mode := progress.machine.mode
            crystalPath := machine.config.crystalPath }) := by
  unfold execute started
  dsimp only
  split <;> rename_i hfailure <;> rw [hfailure]
  split <;> rename_i hsaved <;> rw [hsaved]

/-- The machine after a program is the one its steps lead to: the save at the end of a run
and its report leave the machine alone. -/
theorem execute_machine (machine : Machine) (host : Host) (program : Program) (mode : Mode) :
    (machine.execute host program mode).1.machine =
      (runSteps machine.config program.steps (machine.started program mode) host 0).machine := by
  rw [execute_eq]
  dsimp only
  split <;> rfl

/-- A run leaves the configuration alone. -/
theorem execute_config (machine : Machine) (host : Host) (program : Program) (mode : Mode) :
    (machine.execute host program mode).1.machine.config = machine.config := by
  obtain ⟨_, _, _, _, _, -, -, hmachine⟩ := runSteps_machine machine.config program.steps
    (machine.started program mode) host 0
  rw [execute_machine, hmachine]
  rfl

end Machine

end SpiralMachine
