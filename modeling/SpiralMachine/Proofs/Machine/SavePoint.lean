import SpiralMachine.Proofs.Core.Legible
import SpiralMachine.Proofs.FileTree
import SpiralMachine.Proofs.Machine.DurableWrites
import SpiralMachine.Proofs.Machine.Restore

/-!
# What a save keeps

A save in the middle of a run keeps what the run would have kept that ends before it.
`execute_save_point` says so of every save that writes its crystal, and that this is the crystal of
the machine which the instructions before it lead to: nothing of the save itself or of what
comes after it is in there, and nothing that came before it is missing. It says so of the text
in the file: as JSON the text is the document of that crystal, and it is read as that crystal
if the memories that the machine began with can be read (`ofText?_of_toText`).

The run that ends before the save has another program, but the same steps as far as it goes; and a
run looks at its steps alone (`runSteps_withProgram`).
-/

set_option autoImplicit false

namespace SpiralMachine.Machine

/-! ### The program of a run -/

/-- The machine with another program. -/
def withProgram (machine : Machine) (program : Program) : Machine := { machine with program }

/-- What is left of a machine with another program. -/
def Effect.withProgram (effect : Effect) (program : Program) : Effect :=
  ⟨effect.machine.withProgram program, effect.host⟩

theorem Effect.withProgram_ite (condition : Prop) [Decidable condition] (first second : Effect)
    (program : Program) :
    (if condition then first else second).withProgram program =
      if condition then first.withProgram program else second.withProgram program :=
  apply_ite (Effect.withProgram · program) ..

section Program

variable (machine : Machine) (host : Host) (flags : Config) (program : Program)

theorem prepare_withProgram (step : Step) :
    (machine.withProgram program).prepare host flags step =
      (machine.prepare host flags step).withProgram program := by
  have hnarrate (ready : Machine) (host : Host) :
      (ready.withProgram program).narrate host flags step.instruction.opcode =
        (ready.narrate host flags step.instruction.opcode).withProgram program := by
    unfold narrate
    rw [Effect.withProgram_ite]
    rfl
  unfold prepare
  split
  · exact hnarrate (machine.enterFork host).machine _
  · exact hnarrate machine host

theorem dispatch_withProgram (instruction : Instruction) :
    (machine.withProgram program).dispatch host flags instruction =
      ((machine.dispatch host flags instruction).1.withProgram program,
        (machine.dispatch host flags instruction).2) := by
  unfold dispatch
  split <;> rename_i happly
  all_goals
    change machine.toCore.apply _ machine.mansion.getLast? _ = _ at happly
    rw [happly]
  · rfl
  · rfl
  · cases instruction <;> rfl

theorem audit_withProgram :
    (machine.withProgram program).audit host = (machine.audit host).withProgram program := by
  have harm (learned : Machine) (host : Host) (resonance : Float) :
      (learned.withProgram program).arm host resonance =
        (learned.arm host resonance).withProgram program := by
    unfold arm
    rw [Effect.withProgram_ite]
    rfl
  unfold audit
  rw [Effect.withProgram_ite]
  exact if_congr Iff.rfl rfl (harm { machine with mansion := machine.mansion ++ _ } _ _)

theorem advance_withProgram :
    (machine.withProgram program).advance host =
      (machine.advance host).withProgram program := by
  unfold advance
  rw [Effect.withProgram_ite]
  exact if_congr Iff.rfl (audit_withProgram { machine with ip := machine.ip + 1 } host program) rfl

theorem perform_withProgram (step : Step) :
    (machine.withProgram program).perform host flags step =
      ((machine.perform host flags step).1.withProgram program,
        (machine.perform host flags step).2) := by
  have hmeasured (ready : Effect) :
      (ready.machine.withProgram program).measured ready.host flags step.instruction =
        ((ready.machine.measured ready.host flags step.instruction).1.withProgram program,
          (ready.machine.measured ready.host flags step.instruction).2) := by
    unfold measured
    rw [dispatch_withProgram]
    rfl
  unfold perform
  rw [prepare_withProgram]
  generalize machine.prepare host flags step = ready
  unfold Effect.withProgram at hmeasured ⊢
  dsimp only
  rw [hmeasured]
  rcases ready.machine.measured ready.host flags step.instruction with ⟨done, outcome⟩
  cases outcome with
  | applied =>
    exact congrArg (·, Outcome.applied) (advance_withProgram done.machine done.host program)
  | recoverable fault =>
    let noted := done.machine.recordFault step.instruction.opcode fault
    exact congrArg (·, Outcome.recoverable fault) (advance_withProgram noted done.host program)
  | fatal error => rfl

/-- What steps do does not hang on the program that they are part of. -/
theorem runSteps_withProgram (steps : List Step) (faults : Nat) :
    runSteps flags steps (machine.withProgram program) host faults =
      let progress := runSteps flags steps machine host faults
      { toEffect := progress.toEffect.withProgram program
        faults := progress.faults
        failure := progress.failure } := by
  induction steps generalizing machine host faults with
  | nil => rfl
  | cons step rest ih =>
    rw [runSteps_cons, runSteps_cons, perform_withProgram]
    rcases machine.perform host flags step with ⟨next, outcome⟩
    cases outcome with
    | applied => exact ih next.machine next.host faults
    | recoverable fault => exact ih next.machine next.host (faults + 1)
    | fatal error => rfl

end Program

/-! ### What is written -/

section Save

variable {machine other : Machine} {host saved : Host} {path : String}

/-- A machine is written down as its crystal. -/
theorem toText_of_crystal (h : machine.crystal = other.crystal) :
    machine.toText = other.toText := by
  unfold toText
  rw [h]

/-- What is written of a machine is the text of its crystal, whose numbers are finite. -/
theorem text_of_toText {text : String} (h : machine.toText = .ok text) :
    machine.crystal.Finite ∧ text = machine.crystal.text := by
  unfold toText Crystal.checkFinite at h
  cases hflaw : machine.crystal.flaw? with
  | some flaw =>
    rw [hflaw] at h
    cases h
  | none =>
    rw [hflaw] at h
    cases h
    exact ⟨Crystal.flaw?_eq_none_iff.mp hflaw, rfl⟩

/-- A machine that was written down is read from its text, if its memories can be. -/
theorem ofText?_of_toText {text : String} (h : machine.toText = .ok text)
    (hlegible : machine.mesh.Legible) : Crystal.ofText? text = some machine.crystal := by
  obtain ⟨hfinite, rfl⟩ := text_of_toText h
  exact Crystal.ofText?_text hfinite machine.sorted_crystal_registers hlegible

/-- A save that succeeds leaves the text of the machine in its file. -/
theorem read_save (h : machine.save host path = (saved, none)) :
    ∃ text, machine.toText = .ok text ∧ saved.files.read path = .ok text := by
  unfold save at h
  split at h
  · cases h
  · rename_i text htext
    split at h
    · rename_i files hstore
      cases h
      obtain ⟨old, hread⟩ := FileTree.read_store hstore
      exact ⟨text, htext, hread⟩
    · cases h

/-- A machine that can be written down is saved if the files take its text. -/
theorem save_of_toText {text : String} (htext : machine.toText = .ok text) :
    let written := host.files.store path fun _ ↦ text
    machine.save host path = ({ host with files := written.1 }, written.2.map .io) := by
  dsimp only
  unfold save
  rw [htext]
  dsimp only
  split <;> rename_i hstore <;> rw [hstore] <;> rfl

/-- The save of a machine that can be written down fails where its file cannot be stored. -/
theorem save_failure {text : String} (htext : machine.toText = .ok text) :
    (machine.save host path).2 = (host.files.store path fun _ ↦ text).2.map .io :=
  congrArg Prod.snd (save_of_toText htext)

end Save

end SpiralMachine.Machine

namespace SpiralMachine.Turn

variable {turn : Turn}

theorem ready_crystal : turn.ready.machine.crystal = turn.start.machine.crystal := by
  rw [ready_machine]
  split <;> rfl

/-- A save that was attempted and is no fault has written its file. -/
theorem done_of_saved {path : Option String} (hsave : turn.step.instruction = .save path)
    (hattempts : turn.ready.machine.attemptsSave turn.flags) (happlied : turn.done.2 = .applied) :
    let target := path.getD turn.flags.crystalPath
    ∃ saved, turn.ready.machine.save turn.ready.host target = (saved, none) ∧
      turn.done.1 = turn.ready.machine.emit saved "crystal_saved"
        [("ip", .integer turn.ready.machine.ip), ("path", .string target)] := by
  unfold done at happlied ⊢
  rw [hsave, Machine.dispatch_save_of_attempts hattempts] at happlied ⊢
  unfold Machine.attemptSave at happlied ⊢
  dsimp only
  split at happlied
  · rename_i saved hsaved
    rw [hsaved]
    exact ⟨saved, rfl, rfl⟩
  · cases happlied

end SpiralMachine.Turn

namespace SpiralMachine.Machine

variable {machine : Machine} {host : Host} {program : Program} {mode : Mode} {index : Nat}
  {turn : Turn}

/-- The program that ends before a turn leads to where the turn begins. -/
theorem runSteps_before (hturn : (machine.course host program mode)[index]? = some turn) :
    let before : Program := ⟨program.steps.take index⟩
    let reached := runSteps machine.config before.steps (machine.started before mode) host 0
    reached.toEffect = turn.start.withProgram before ∧ reached.failure = none := by
  rw [course, turns_getElem? _ _ _ 0] at hturn
  obtain ⟨step, -, hstep⟩ := Option.bind_eq_some_iff.mp hturn
  dsimp only at hstep ⊢
  split at hstep
  · rename_i hfailure
    cases hstep
    have hprogram := runSteps_withProgram (machine.started program mode) host machine.config
      ⟨program.steps.take index⟩ (program.steps.take index) 0
    change runSteps _ _ (machine.started ⟨program.steps.take index⟩ mode) _ _ = _ at hprogram
    rw [hprogram]
    exact ⟨rfl, by simpa using hfailure⟩
  · cases hstep

/-- A run whose steps come to their end leaves the text of its machine in its file, unless that
cannot be stored. -/
theorem execute_saves {text : String} {reached : Effect}
    (hreached : (runSteps machine.config program.steps (machine.started program mode) host
      0).toEffect = reached)
    (hcomplete : (runSteps machine.config program.steps (machine.started program mode) host
      0).failure = none)
    (htext : reached.machine.toText = .ok text) :
    let path := machine.config.crystalPath
    let result := machine.execute host program mode
    (∀ summary, result.2 = .ok summary → result.1.host.files.read path = .ok text) ∧
    (∀ error, result.2 = .error error → ∃ reason, error = .persistence (.io reason) ∧
      (reached.host.files.store path fun _ ↦ text).2 = some reason) := by
  dsimp only
  rw [execute_eq]
  generalize runSteps machine.config program.steps (machine.started program mode) host 0 = progress
    at *
  subst hreached
  dsimp only
  rw [hcomplete]
  rcases hsaved : progress.machine.save progress.host machine.config.crystalPath with
    ⟨saved, failure⟩
  cases failure with
  | none =>
    obtain ⟨kept, hkept, hread⟩ := read_save hsaved
    cases htext.symm.trans hkept
    exact ⟨fun _ _ ↦ hread, nofun⟩
  | some cause =>
    refine ⟨nofun, fun error herror ↦ ?_⟩
    have hcause := (save_failure htext).symm.trans (congrArg Prod.snd hsaved)
    obtain ⟨reason, hreason, rfl⟩ := Option.map_eq_some_iff.mp hcause
    cases herror
    exact ⟨reason, rfl, hreason⟩

/-- Memories that can be read to begin with can be read where any turn begins. -/
theorem legible_of_course (hturn : (machine.course host program mode)[index]? = some turn)
    (h : machine.mesh.Legible) : turn.start.machine.mesh.Legible := by
  have hstep : ∀ (core : Core) (budget : Nat) (lesson : Option Lesson) (instruction : Instruction),
      core.mesh.Legible → ((core.apply budget lesson instruction).result core).mesh.Legible :=
    fun _ budget lesson instruction hcore ↦ Core.apply_legible hcore budget lesson instruction
  have hstarted : (machine.started ⟨program.steps.take index⟩ mode).mesh.Legible := h
  have hmesh := congrArg (·.machine.mesh) (runSteps_before hturn).1
  exact hmesh ▸ runSteps_core hstep machine.config _ hstarted host 0

/-- A save that writes its crystal writes what is written at the end of the run that ends before
the save, by the same machine in the same host and mode; that last write is the same unless its
file cannot be stored. The text in the file is the JSON of a crystal with the mesh, the registers
and the depth that this run leads to, and with a log that goes as far as the instruction before
the save. It is read as that crystal if the memories of the machine could be read, as those of a
machine can that is reached by runs and by crystals from texts. -/
theorem execute_save_point {path : Option String}
    (hturn : (machine.course host program mode)[index]? = some turn)
    (hsave : turn.step.instruction = .save path)
    (hattempts : turn.ready.machine.attemptsSave machine.config)
    (happlied : turn.done.2 = .applied) :
    let flags := machine.config
    let target := path.getD flags.crystalPath
    let saving := turn.ready.machine
    let copy := machine.execute host ⟨program.steps.take index⟩ mode
    let kept : Crystal :=
      { mesh := copy.1.machine.mesh
        registers := copy.1.machine.crystal.registers
        spiralDepth := copy.1.machine.spiralDepth
        log := machine.log ++
          ((machine.course host program mode).take index).map (·.dispatch.entry) }
    ∃ text saved,
      saving.save turn.ready.host target = (saved, none) ∧
      saved.files.read target = .ok text ∧
      turn.done.1 = saving.emit saved "crystal_saved"
        [("ip", .integer saving.ip), ("path", .string target)] ∧
      text = kept.text ∧
      Json.Document.ofText? text = some (Json.toDocument kept.toJson) ∧
      (machine.mesh.Legible → Crystal.ofText? text = some kept) ∧
      saving.crystal = kept ∧ copy.1.machine.crystal = kept ∧
      (∀ summary, copy.2 = .ok summary → copy.1.host.files.read flags.crystalPath = .ok text) ∧
      (∀ error, copy.2 = .error error → ∃ reason, error = .persistence (.io reason) ∧
        (turn.start.host.files.store flags.crystalPath fun _ ↦ text).2 = some reason) := by
  have hcourse := machine.leads_course host program mode
  have hflags : turn.flags = machine.config := hcourse.flags_eq (List.mem_of_getElem? hturn)
  obtain ⟨saved, hsaved, hdone⟩ := Turn.done_of_saved hsave (hflags ▸ hattempts) happlied
  obtain ⟨text, htext, hread⟩ := read_save hsaved
  have hlog : turn.ready.machine.log = machine.log ++
      ((machine.course host program mode).take index).map (·.dispatch.entry) :=
    (congrArg Crystal.log Turn.ready_crystal).trans (hcourse.take hturn).log_eq
  -- the copy comes to where the turn begins
  obtain ⟨hreached, hcomplete⟩ := runSteps_before hturn
  have hcrystal : (turn.start.withProgram ⟨program.steps.take index⟩).machine.crystal =
      turn.ready.machine.crystal := Turn.ready_crystal.symm
  have hcopy : (machine.execute host ⟨program.steps.take index⟩ mode).1.machine.crystal =
      turn.ready.machine.crystal := by
    rw [execute_machine, ← hcrystal]
    exact congrArg (·.machine.crystal) hreached
  obtain ⟨hwritten, hfailed⟩ :=
    execute_saves hreached hcomplete ((toText_of_crystal hcrystal).trans htext)
  have hkept : turn.ready.machine.crystal =
      { (machine.execute host ⟨program.steps.take index⟩ mode).1.machine.crystal with
        log := machine.log ++
          ((machine.course host program mode).take index).map (·.dispatch.entry) } := by
    rw [hcopy, ← hlog]
    rfl
  obtain ⟨-, hcrystaltext⟩ := text_of_toText htext
  rw [hflags] at hsaved hread hdone
  refine ⟨text, saved, hsaved, hread, hdone, ?_, ?_, fun hlegible ↦ ?_, hkept, hcopy.trans hkept,
    hwritten, hfailed⟩
  · rw [hcrystaltext, hkept]
    rfl
  · rw [hcrystaltext, hkept]
    exact Json.ofText?_render Json.pretty_isBlank _
  · have hmesh : turn.ready.machine.mesh = turn.start.machine.mesh :=
      congrArg Crystal.mesh Turn.ready_crystal
    rw [ofText?_of_toText htext (hmesh ▸ legible_of_course hturn hlegible), hkept]
    rfl

/-- A node is created, a fault is learned, and the crystal is saved before and after another
instruction, by a path from the top whose directory is missing. In the file of the first save
stand the node and the two instructions before it, as in that of a run which ends there. -/
theorem save_point_of_missing_node :
    let machine := Machine.new { Config.default with crystalPath := "/kept/c" } .memory
    let host : Host := ⟨.empty, [], 0⟩
    let before : List Instruction := [.mesh (some "a") none, .seek (some "ghost") .b]
    let program := Program.ofInstructions (before ++ [.save none, .phi .a, .save none])
    let copy := machine.execute host (Program.ofInstructions before) .execute
    ∃ turn text kept, (machine.course host program .execute)[2]? = some turn ∧
      turn.done.1.host.files.read "/kept/c" = .ok text ∧
      copy.1.host.files.read "/kept/c" = .ok text ∧
      Crystal.ofText? text = some kept ∧ kept.mesh.ids = ["a"] ∧
      kept.log.map (·.op) = ["MESH", "SEEK"] := by
  intro machine host before program copy
  let first : Turn :=
    ⟨machine.config, ⟨machine.started program .execute, host⟩, ⟨.mesh (some "a") none, false⟩⟩
  let second : Turn := ⟨machine.config, first.stop, ⟨.seek (some "ghost") .b, false⟩⟩
  let turn : Turn := ⟨machine.config, second.stop, ⟨.save none, false⟩⟩
  have hturn : (machine.course host program .execute)[2]? = some turn := rfl
  have hattempts : turn.ready.machine.attemptsSave machine.config := ⟨rfl, rfl⟩
  have hstore (text : String) : (FileTree.empty.store "/kept/c" fun _ ↦ text).2 = none := by
    have hspells : FileTree.Spells "/kept/c" [""] ["kept"] "c" :=
      ⟨rfl, by decide, by decide, by decide, by decide⟩
    exact hspells.store_empty (by decide) _
  have happlied : turn.done.2 = .applied := by
    have htext : turn.ready.machine.toText = .ok turn.ready.machine.crystal.text := by
      have hfinite : turn.ready.machine.crystal.flaw?.isNone := by decide +kernel
      rw [toText, Crystal.checkFinite, Option.isNone_iff_eq_none.mp hfinite]
      rfl
    have hsaved : (turn.ready.machine.save turn.ready.host "/kept/c").2 = none :=
      (save_failure htext).trans (congrArg (Option.map CrystalError.io) (hstore _))
    change (turn.ready.machine.dispatch turn.ready.host machine.config (.save none)).2 = _
    rw [dispatch_save_of_attempts hattempts]
    unfold attemptSave
    split
    · rfl
    · rename_i hfailed
      cases hsaved.symm.trans (congrArg Prod.snd hfailed)
  obtain ⟨text, saved, -, hread, hdone, -, -, hkept, -, -, hwritten, hfailed⟩ :=
    execute_save_point hturn rfl hattempts happlied
  refine ⟨turn, text, _, hturn, ?_, ?_, hkept Mesh.legible_empty, ?_, rfl⟩
  · rw [hdone]
    exact hread
  · cases hcopy : copy.2 with
    | ok summary => exact hwritten summary hcopy
    | error cause =>
      obtain ⟨reason, -, hreason⟩ := hfailed cause hcopy
      cases (hstore text).symm.trans hreason
  · dsimp only
    rw [execute_machine]
    rfl

end SpiralMachine.Machine
