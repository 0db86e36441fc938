import SpiralMachine.Proofs.Machine.Modes

/-!
# Durable writes

A save attempts to write the crystal where the mode is EXECUTE and the run is not dry
(`dispatch_save`); elsewhere it tells that it was skipped, and does nothing. `execute_durable_writes`
says what that means for a run: a save is attempted exactly in a run that was asked to EXECUTE,
and that nothing has disturbed until then, neither a fork nor an audit. There is no way back to
EXECUTE, nor to any other mode that a run has left.
-/

set_option autoImplicit false

namespace SpiralMachine.Machine

/-- Whether a save attempts to write the crystal. -/
def attemptsSave (machine : Machine) (flags : Config) : Prop :=
  machine.mode = .execute ∧ flags.dryRun = false

/-- What becomes of an attempt to save the crystal: it is told, or a fault. -/
def attemptSave (machine : Machine) (host : Host) (path : String) : Effect × Outcome :=
  match machine.save host path with
  | (host, none) =>
    (machine.emit host "crystal_saved" [("ip", .integer machine.ip), ("path", .string path)],
      .applied)
  | (host, some cause) => (⟨machine, host⟩, .recoverable (.unsaved cause.message))

/-- What becomes of a save that is not attempted: it is told. -/
def skipSave (machine : Machine) (host : Host) (flags : Config) (path : String) :
    Effect × Outcome :=
  (machine.emit host "save_skipped"
    [("dry_run", .boolean flags.dryRun), ("ip", .integer machine.ip),
      ("mode", .string machine.mode.name), ("path", .string path)], .applied)

section Save

variable {machine : Machine} {flags : Config}

/-- An instruction to save leaves the core alone: it does what saving does. -/
theorem dispatch_save (machine : Machine) (host : Host) (flags : Config) (path : Option String) :
    machine.dispatch host flags (.save path) =
      (⟨machine, (machine.saveOpcode host flags path).1⟩,
        (machine.saveOpcode host flags path).2) :=
  rfl

/-- A save is skipped exactly if it is not attempted. -/
theorem skips_iff :
    (!machine.mode.allowsWrites || flags.dryRun) = true ↔ ¬machine.attemptsSave flags := by
  rw [Bool.or_eq_true, Bool.not_eq_true', Mode.allowsWrites, decide_eq_false_iff_not, attemptsSave,
    not_and_or, Bool.not_eq_false]

theorem dispatch_save_of_attempts (h : machine.attemptsSave flags) (host : Host)
    (path : Option String) :
    machine.dispatch host flags (.save path) =
      machine.attemptSave host (path.getD flags.crystalPath) := by
  rw [dispatch_save]
  unfold saveOpcode attemptSave
  rw [if_neg (mt skips_iff.mp (not_not.mpr h))]
  rcases machine.save host (path.getD flags.crystalPath) with ⟨saved, failure⟩
  cases failure <;> rfl

theorem dispatch_save_of_not_attempts (h : ¬machine.attemptsSave flags) (host : Host)
    (path : Option String) :
    machine.dispatch host flags (.save path) =
      machine.skipSave host flags (path.getD flags.crystalPath) := by
  rw [dispatch_save]
  unfold saveOpcode
  rw [if_pos (skips_iff.mpr h)]
  rfl

end Save

/-- No run but one that was asked to EXECUTE starts in that mode. -/
theorem startMode_eq_execute_iff (flags : Config) (mode : Mode) :
    startMode flags mode = .execute ↔ mode = .execute := by
  unfold startMode
  split
  · rename_i h
    rw [h.1]
    exact ⟨nofun, nofun⟩
  · rfl

/-- The first turns of a run take the first steps of its program. -/
theorem map_step_take_course {machine : Machine} {host : Host} {program : Program} {mode : Mode}
    {index : Nat} {turn : Turn} (hturn : (machine.course host program mode)[index]? = some turn) :
    ((machine.course host program mode).take (index + 1)).map Turn.step =
      program.steps.take (index + 1) := by
  have hlt : index < (machine.course host program mode).length :=
    (List.getElem?_eq_some_iff.mp hturn).1
  have hsteps : (machine.course host program mode).map Turn.step =
      program.steps.take (machine.course host program mode).length := map_step_turns ..
  rw [List.map_take, hsteps, List.take_take, Nat.min_eq_left hlt]

/-- An instruction is carried out in EXECUTE exactly if the run was asked to, no step has forked up
to and with its own, and no audit before it has entered ARM. -/
theorem ready_mode_eq_execute_iff {machine : Machine} {host : Host} {program : Program}
    {mode : Mode} {index : Nat} {turn : Turn}
    (hturn : (machine.course host program mode)[index]? = some turn) :
    turn.ready.machine.mode = .execute ↔
      mode = .execute ∧
      (∀ step ∈ program.steps.take (index + 1),
        ¬(machine.config.forkTracking ∧ step.forks)) ∧
      ∀ earlier ∈ (machine.course host program mode).take index, ¬earlier.arms := by
  have hcourse := machine.leads_course host program mode
  have hasks : ∀ other ∈ machine.course host program mode,
      (other.forks ↔ machine.config.forkTracking ∧ other.step.forks) := by
    intro other hother
    rw [Turn.forks, hcourse.flags_eq hother, Bool.and_eq_true]
  have htake : (machine.course host program mode).take (index + 1) =
      (machine.course host program mode).take index ++ [turn] := by
    rw [List.take_add_one, hturn]
    rfl
  have hforks : (∀ step ∈ program.steps.take (index + 1),
        ¬(machine.config.forkTracking ∧ step.forks)) ↔
      (∀ earlier ∈ (machine.course host program mode).take index, ¬earlier.forks) ∧
        ¬turn.forks := by
    rw [← map_step_take_course hturn, List.forall_mem_map]
    refine Iff.trans (forall₂_congr fun other hother ↦ not_congr
      (hasks other (List.mem_of_mem_take hother)).symm) ?_
    rw [htake, List.forall_mem_append, List.forall_mem_singleton]
  have hstart : turn.start.machine.mode = .execute ↔ mode = .execute ∧
      ∀ earlier ∈ (machine.course host program mode).take index,
        ¬earlier.forks ∧ ¬earlier.arms := by
    have hfork : Mode.execute ≠ .fork := nofun
    have harm : Mode.execute ≠ .arm := nofun
    refine ((hcourse.take hturn).mode_eq_iff hfork harm).trans ?_
    exact and_congr_left' (startMode_eq_execute_iff machine.config mode)
  have hready : turn.ready.machine.mode = .execute ↔
      turn.start.machine.mode = .execute ∧ ¬turn.forks := by
    rw [Turn.ready_mode]
    by_cases hfork : turn.forks <;> simp [hfork]
  rw [hready, hstart, hforks, forall₂_and]
  tauto

/-- A sink that is no journal leaves the files alone. -/
theorem emit_files {sink : EventSink} (h : ∀ path, sink ≠ .journal path) (host : Host)
    (eventType : String) (details : Json.Members) :
    (host.emit sink eventType details).files = host.files := by
  cases sink with
  | none => rfl
  | memory => rfl
  | journal path => exact absurd rfl (h path)

/-- A save is attempted exactly in a run that was asked to EXECUTE, that is not dry, where no step
has forked up to and with the save itself, and no audit before it has entered ARM. Any other save
is applied without a trace but the event that tells of it: the machine stays as it was, and so
do the files, if the sink keeps no journal among them. The mode of a run is the one that it
starts in, or FORK or ARM; and if it has left another mode than those two, it never returns to
it. -/
theorem execute_durable_writes (machine : Machine) (host : Host) (program : Program)
    (mode : Mode) :
    let flags := machine.config
    let course := machine.course host program mode
    let modes := machine.modes host program mode
    let start : Mode := if mode = .simulate ∧ flags.narrativeMode then .trace else mode
    (∀ (index : Nat) (turn : Turn) path, course[index]? = some turn →
      turn.step.instruction = .save path →
      let target := path.getD flags.crystalPath
      let undisturbed := mode = .execute ∧ flags.dryRun = false ∧
        (∀ step ∈ program.steps.take (index + 1), ¬(flags.forkTracking ∧ step.forks)) ∧
        ∀ earlier ∈ course.take index, ¬earlier.arms
      (turn.ready.machine.attemptsSave flags ↔ undisturbed) ∧
      (undisturbed → turn.done = turn.ready.machine.attemptSave turn.ready.host target) ∧
      (¬undisturbed → turn.done = turn.ready.machine.skipSave turn.ready.host flags target ∧
        turn.done.2 = .applied ∧ turn.done.1.machine = turn.ready.machine ∧
        ((∀ path, turn.ready.machine.sink ≠ .journal path) →
          turn.done.1.host.files = turn.ready.host.files))) ∧
    modes.head? = some start ∧
    (∀ visited ∈ modes, visited = start ∨ visited = .fork ∨ visited = .arm) ∧
    (start ≠ .fork → start ≠ .arm →
      modes.Pairwise fun earlier later ↦ earlier ≠ start → later ≠ start) := by
  have hmodes := machine.pairwise_modes host program mode
  dsimp only
  refine ⟨?_, rfl, ?_, ?_⟩
  · intro index turn path hturn hsave
    have hflags : turn.flags = machine.config :=
      (machine.leads_course host program mode).flags_eq (List.mem_of_getElem? hturn)
    have hdone : turn.done =
        turn.ready.machine.dispatch turn.ready.host machine.config (.save path) := by
      rw [Turn.done, hflags, hsave]
    have hattempts : turn.ready.machine.attemptsSave machine.config ↔
        mode = .execute ∧ machine.config.dryRun = false ∧
          (∀ step ∈ program.steps.take (index + 1),
            ¬(machine.config.forkTracking ∧ step.forks)) ∧
          ∀ earlier ∈ (machine.course host program mode).take index, ¬earlier.arms := by
      rw [attemptsSave, ready_mode_eq_execute_iff hturn]
      tauto
    refine ⟨hattempts, fun hcalm ↦ ?_, fun hdisturbed ↦ ?_⟩
    · exact hdone.trans (dispatch_save_of_attempts (hattempts.mpr hcalm) _ _)
    · rw [hdone, dispatch_save_of_not_attempts (mt hattempts.mp hdisturbed)]
      exact ⟨rfl, rfl, rfl, fun hsink ↦ emit_files hsink _ _ _⟩
  · intro visited hvisited
    rcases List.mem_cons.mp hvisited with rfl | hvisited
    · exact .inl rfl
    · exact List.rel_of_pairwise_cons hmodes hvisited
  · intro hfork harm
    refine hmodes.imp fun hfollows hleft hback ↦ ?_
    rcases hfollows with hsame | hforked | harmed
    · exact hleft (hsame.symm.trans hback)
    · exact hfork (hback.symm.trans hforked)
    · exact harm (hback.symm.trans harmed)

/-- A run that is asked to EXECUTE attempts to save the crystal, unless the save itself forks. -/
theorem durable_writes_of_forking_save :
    let machine := Machine.new { Config.default with forkTracking := true } .memory
    let host : Host := ⟨.empty, [], 0⟩
    let program (forks : Bool) : Program := ⟨[⟨.phi .a, false⟩, ⟨.save none, forks⟩]⟩
    let course (forks : Bool) := machine.course host (program forks) .execute
    ∃ calm forked, (course false)[1]? = some calm ∧ (course true)[1]? = some forked ∧
      calm.done = calm.ready.machine.attemptSave calm.ready.host "TVM.crystal.json" ∧
      forked.done.1.machine = forked.ready.machine ∧
      forked.done.1.host.files = forked.ready.host.files := by
  intro machine host program course
  let turn (forks : Bool) : Turn :=
    let first : Turn := ⟨machine.config, ⟨machine.started (program forks) .execute, host⟩,
      ⟨.phi .a, false⟩⟩
    ⟨machine.config, first.stop, ⟨.save none, forks⟩⟩
  have hturn (forks : Bool) : (course forks)[1]? = some (turn forks) := rfl
  obtain ⟨hcalm, -⟩ := execute_durable_writes machine host (program false) .execute
  obtain ⟨-, hattempt, -⟩ := hcalm 1 (turn false) none (hturn false) rfl
  obtain ⟨hforked, -⟩ := execute_durable_writes machine host (program true) .execute
  obtain ⟨-, -, hskip⟩ := hforked 1 (turn true) none (hturn true) rfl
  have hfirst : ∀ earlier ∈ (course false).take 1, ¬earlier.arms := by decide +kernel
  have hsink (path : String) : (turn true).ready.machine.sink ≠ .journal path :=
    fun h ↦ nomatch (show EventSink.memory = .journal path from h)
  obtain ⟨-, -, hmachine, hfiles⟩ := hskip fun hundisturbed ↦
    hundisturbed.2.2.1 ⟨.save none, true⟩ (by simp [program]) ⟨rfl, rfl⟩
  refine ⟨turn false, turn true, hturn false, hturn true, hattempt ⟨rfl, rfl, ?_, hfirst⟩,
    hmachine, hfiles hsink⟩
  simp [program]

end SpiralMachine.Machine
