import SpiralMachine.Proofs.Core.InPlace
import SpiralMachine.Proofs.Machine.Telling

/-!
# A fault leaves no trace

A machine carries out an instruction in place (`carryOut`): its core is changed part by part, its
sink is told one event after the other, and SAVE writes a file before it knows whether it has
succeeded. `carryOut_run` says that this comes to what `dispatch` makes of the machine and its
host, and `dispatch_traceless` what is left of an instruction that fails: nothing, but for the
files that a SAVE has touched.
-/

set_option autoImplicit false

namespace SpiralMachine

/-- A node for which there is no room leaves the core as it was. -/
theorem Core.eq_of_place_eq_full {core changed : Core} {budget : Nat} {id : String}
    {vector : SpiralVector} {added initial : List String}
    (h : core.place budget id vector added initial = .full changed) : changed = core := by
  unfold place at h
  split at h
  · cases h
  · split at h <;> cases h
    rfl

namespace Machine

/-- Changes the core of a machine. -/
def onCore (handler : Handler Unit) : EStateM Interrupt Effect Unit := fun effect ↦
  let put (core : Core) : Effect :=
    { effect with machine := { effect.machine with toCore := core } }
  match handler effect.machine.toCore with
  | .ok () core => .ok () (put core)
  | .error stop core => .error stop (put core)

/-- Tells the sink of an event. -/
def tell (eventType : String) (details : Machine → Json.Members) :
    EStateM Interrupt Effect Unit :=
  modify fun effect ↦ effect.machine.emit effect.host eventType (details effect.machine)

/-- Scores every node and tells of numbers that are close enough. -/
def syncInPlace (flags : Config) (here remote : Float) : EStateM Interrupt Effect Unit := do
  onCore .sync
  let score := closeness here remote
  if score ≥ flags.resonanceThreshold then
    tell "resonance_threshold" fun machine ↦
      [("ip", .integer machine.ip), ("local", scoreJson here), ("remote", scoreJson remote),
        ("score", scoreJson score), ("threshold", scoreJson flags.resonanceThreshold)]
  else pure ()

/-- Writes the crystal, and tells of it if that has succeeded. -/
def writeInPlace (path : String) : EStateM Interrupt Effect Unit := do
  let effect ← get
  let saved := effect.machine.save effect.host path
  modify fun effect ↦ { effect with host := saved.1 }
  match saved.2 with
  | some cause => throw (.fault (.unsaved cause.message))
  | none =>
    tell "crystal_saved" fun machine ↦ [("ip", .integer machine.ip), ("path", .string path)]

/-- Writes the crystal where that is allowed. -/
def saveInPlace (flags : Config) (path : Option String) : EStateM Interrupt Effect Unit := do
  let path := path.getD flags.crystalPath
  let machine := (← get).machine
  if !machine.mode.allowsWrites || flags.dryRun then
    tell "save_skipped" fun machine ↦
      [("dry_run", .boolean flags.dryRun), ("ip", .integer machine.ip),
        ("mode", .string machine.mode.name), ("path", .string path)]
  else writeInPlace path

/-- Carries out an instruction in place. -/
def carryOut (flags : Config) : Instruction → EStateM Interrupt Effect Unit
  | .sync here remote => syncInPlace flags here remote
  | .save path => saveInPlace flags path
  | instruction => do
    let lesson := (← get).machine.mansion.getLast?
    onCore (.carry flags.maxMeshNodes lesson instruction)

/-- The outcome of an instruction that was carried out. -/
def outcome : EStateM.Result Interrupt Effect Unit → Effect × Outcome
  | .ok () effect => (effect, .applied)
  | .error (.fault fault) effect => (effect, .recoverable fault)
  | .error (.fatal error) effect => (effect, .fatal error)

/-- What becomes of a machine, by what becomes of its core. -/
def settle (machine : Machine) (host : Host) (budget : Nat) : Change → Effect × Outcome
  | .fault fault => (⟨machine, host⟩, .recoverable fault)
  | .full core =>
    (⟨{ machine with toCore := core }, host⟩,
      .fatal (.capacityExceeded core.mesh.size budget))
  | .applied core => (⟨{ machine with toCore := core }, host⟩, .applied)

/-- A machine whose core is changed in place, by an instruction that does nothing else. -/
theorem onCore_run (flags : Config) (instruction : Instruction) (machine : Machine)
    (host : Host) :
    outcome (onCore (.carry flags.maxMeshNodes machine.mansion.getLast? instruction)
        ⟨machine, host⟩) =
      machine.settle host flags.maxMeshNodes
        (machine.toCore.apply flags.maxMeshNodes machine.mansion.getLast? instruction) := by
  unfold onCore
  dsimp only
  rw [Handler.carry_run]
  cases machine.toCore.apply flags.maxMeshNodes machine.mansion.getLast? instruction <;> rfl

theorem syncInPlace_run (flags : Config) (here remote : Float) (machine : Machine) (host : Host) :
    outcome (syncInPlace flags here remote ⟨machine, host⟩) =
      machine.dispatch host flags (.sync here remote) := by
  have hscored : onCore .sync ⟨machine, host⟩ =
      .ok () ⟨{ machine with toCore := machine.toCore.sync }, host⟩ := rfl
  change _ = (Effect.mk _ (machine.reportSync host flags here remote), Outcome.applied)
  unfold syncInPlace reportSync
  rw [bind_of_ok hscored]
  dsimp only
  split <;> rfl

theorem writeInPlace_run (path : String) (machine : Machine) (host : Host) :
    outcome (writeInPlace path ⟨machine, host⟩) = machine.attemptSave host path := by
  refine (congrArg outcome ((bind_of_ok rfl).trans (bind_of_ok rfl))).trans ?_
  unfold attemptSave
  rcases machine.save host path with ⟨saved, failure⟩
  cases failure <;> rfl

theorem saveInPlace_run (flags : Config) (path : Option String) (machine : Machine)
    (host : Host) :
    outcome (saveInPlace flags path ⟨machine, host⟩) =
      machine.dispatch host flags (.save path) := by
  refine (congrArg outcome (bind_of_ok rfl)).trans ?_
  by_cases hattempts : machine.attemptsSave flags
  · rw [dispatch_save_of_attempts hattempts, if_neg (mt skips_iff.mp (not_not.mpr hattempts))]
    exact writeInPlace_run ..
  · rw [dispatch_save_of_not_attempts hattempts, if_pos (skips_iff.mpr hattempts)]
    rfl

/-- An instruction that is carried out in place comes to what `dispatch` makes of the machine and
its host. -/
theorem carryOut_run (flags : Config) (instruction : Instruction) (machine : Machine)
    (host : Host) :
    outcome (carryOut flags instruction ⟨machine, host⟩) =
      machine.dispatch host flags instruction := by
  have hcore := onCore_run flags instruction machine host
  cases instruction with
  | sync here remote => exact syncInPlace_run flags here remote machine host
  | save path => exact saveInPlace_run flags path machine host
  | _ => exact hcore

/-! ### What a failure leaves -/

theorem attemptSave_outcome (machine : Machine) (host : Host) (path : String) :
    (machine.attemptSave host path).2 =
      match (machine.save host path).2 with
      | some cause => .recoverable (.unsaved cause.message)
      | none => .applied := by
  unfold attemptSave
  rcases machine.save host path with ⟨saved, failure⟩
  cases failure <;> rfl

/-- The sink has no say in what becomes of an instruction. -/
theorem dispatch_sink (machine : Machine) (host : Host) (flags : Config)
    (instruction : Instruction) (sink : EventSink) :
    ({ machine with sink }.dispatch host flags instruction).2 =
      (machine.dispatch host flags instruction).2 := by
  cases instruction with
  | save path =>
    by_cases hattempts : machine.attemptsSave flags
    · rw [dispatch_save_of_attempts hattempts,
        dispatch_save_of_attempts (show { machine with sink }.attemptsSave flags from hattempts),
        attemptSave_outcome, attemptSave_outcome]
      rfl
    · rw [dispatch_save_of_not_attempts hattempts,
        dispatch_save_of_not_attempts
          (show ¬{ machine with sink }.attemptsSave flags from hattempts)]
      rfl
  | _ =>
    unfold dispatch
    dsimp only
    split <;> rfl

section Fault

variable {machine : Machine} {host : Host} {flags : Config} {fault : Fault}

/-- A save that is a fault was attempted. -/
theorem attemptsSave_of_recoverable {path : Option String}
    (h : (machine.dispatch host flags (.save path)).2 = .recoverable fault) :
    machine.attemptsSave flags := by
  by_contra hskips
  rw [dispatch_save_of_not_attempts hskips] at h
  cases h

/-- A fault is not told. -/
theorem report_of_recoverable {instruction : Instruction}
    (h : (machine.dispatch host flags instruction).2 = .recoverable fault) :
    machine.report flags (.recoverable fault) instruction = [] := by
  cases instruction with
  | sync here remote => cases h
  | save path => exact if_pos (attemptsSave_of_recoverable h)
  | _ => rfl

theorem dispatch_host_of_recoverable {instruction : Instruction}
    (h : (machine.dispatch host flags instruction).2 = .recoverable fault) :
    (machine.dispatch host flags instruction).1.host =
      machine.written host flags instruction := by
  rw [dispatch_host, h, report_of_recoverable h]
  rfl

end Fault

/-- Writing a file puts no event into memory. -/
theorem written_events (machine : Machine) (host : Host) (flags : Config)
    (instruction : Instruction) :
    (machine.written host flags instruction).events = host.events := by
  unfold written save
  repeat' split
  all_goals rfl

/-- An instruction that fails leaves nothing behind. It is carried out part by part, and that comes
to what `dispatch` makes of the machine and its host. Where it is a fault, the machine is the one
that was there before, in all its fields, and the sink was told nothing: memory has no event that
was not there, and the host is left the same whatever the sink is. The host itself is as it was,
but for the files that a SAVE has touched on its way. Where MESH or FORGE find no room for a node,
the machine and the host are as they were. -/
theorem dispatch_traceless (machine : Machine) (host : Host) (flags : Config)
    (instruction : Instruction) :
    let done := machine.dispatch host flags instruction
    outcome (carryOut flags instruction ⟨machine, host⟩) = done ∧
      (∀ fault, done.2 = .recoverable fault →
        done.1.machine = machine ∧ done.1.host.events = host.events ∧
          (∀ sink, ({ machine with sink }.dispatch host flags instruction).1.host = done.1.host) ∧
          ((∀ path, instruction ≠ .save path) → done.1.host = host) ∧
          ∀ path, instruction = .save path →
            done.1.host = (machine.save host (path.getD flags.crystalPath)).1) ∧
      ∀ error, done.2 = .fatal error →
        instruction.opcode = .mesh ∨ instruction.opcode = .forge → done.1 = ⟨machine, host⟩ := by
  refine ⟨carryOut_run flags instruction machine host, fun fault hfault ↦ ?_,
    fun error herror hopcode ↦ ?_⟩
  · have hhost := dispatch_host_of_recoverable hfault
    refine ⟨dispatch_recoverable hfault, ?_, fun sink ↦ ?_, fun hsave ↦ ?_, ?_⟩
    · rw [hhost, written_events]
    · have hother := (dispatch_sink machine host flags instruction sink).trans hfault
      exact (dispatch_host_of_recoverable hother).trans hhost.symm
    · cases instruction with
      | save path => exact absurd rfl (hsave path)
      | _ => exact hhost
    · rintro path rfl
      exact hhost.trans (if_pos (attemptsSave_of_recoverable hfault))
  · obtain ⟨core, hfull, hdone⟩ := dispatch_eq_of_fatal herror
    rw [hdone]
    cases instruction with
    | mesh id connect => rw [Core.eq_of_place_eq_full hfull]
    | forge id connect => rw [Core.eq_of_place_eq_full hfull]
    | _ => simp [Instruction.opcode] at hopcode

/-- In the middle of a run, FLOW does not find its node, SAVE has no place for its file, and MESH
and FORGE find no room. -/
theorem dispatch_traceless_of_failures :
    let machine : Machine :=
      { new .default .memory with
        mode := .execute
        ip := 3
        mansion := [.of .exception .seed "lesson"]
        forks := [1] }
    let host : Host := ⟨.empty, [], 0⟩
    let flags : Config := { Config.default with maxMeshNodes := 0 }
    (machine.dispatch host flags (.flow (some "a") (some "b"))).1 = ⟨machine, host⟩ ∧
      (machine.dispatch host flags (.save (some ""))).1 =
        ⟨machine, (machine.save host "").1⟩ ∧
      (machine.dispatch host flags (.mesh none none)).1 = ⟨machine, host⟩ ∧
      (machine.dispatch host flags (.forge (some "a") ["b"])).1 = ⟨machine, host⟩ := by
  intro machine host flags
  refine ⟨?_, ?_, ?_, ?_⟩
  · obtain ⟨-, hfault, -⟩ := dispatch_traceless machine host flags (.flow (some "a") (some "b"))
    obtain ⟨hmachine, -, -, hhost, -⟩ := hfault (.nodeNotFound "a") rfl
    exact congrArg₂ Effect.mk hmachine (hhost nofun)
  · have hstore (text : String) :
        FileTree.empty.store "" (fun _ ↦ text) = (.empty, some .notFound) := rfl
    have hfailure : ∃ cause, (machine.save host "").2 = some cause := by
      unfold save
      cases machine.toText with
      | error cause => exact ⟨cause, rfl⟩
      | ok text =>
        dsimp only
        rw [hstore]
        exact ⟨.io .notFound, rfl⟩
    obtain ⟨cause, hcause⟩ := hfailure
    have hdispatch : machine.dispatch host flags (.save (some "")) = machine.attemptSave host "" :=
      dispatch_save_of_attempts ⟨rfl, rfl⟩ host (some "")
    have houtcome := attemptSave_outcome machine host ""
    rw [hcause] at houtcome
    obtain ⟨-, hfault, -⟩ := dispatch_traceless machine host flags (.save (some ""))
    obtain ⟨hmachine, -, -, -, hsaved⟩ := hfault _ ((congrArg Prod.snd hdispatch).trans houtcome)
    have hfiles : (machine.dispatch host flags (.save (some ""))).1.host =
        (machine.save host "").1 := hsaved (some "") rfl
    generalize machine.dispatch host flags (.save (some "")) = done at hmachine hfiles ⊢
    exact congrArg₂ Effect.mk hmachine hfiles
  · obtain ⟨-, -, hfatal⟩ := dispatch_traceless machine host flags (.mesh none none)
    exact hfatal (.capacityExceeded 0 0) rfl (.inl rfl)
  · obtain ⟨-, -, hfatal⟩ := dispatch_traceless machine host flags (.forge (some "a") ["b"])
    exact hfatal (.capacityExceeded 0 0) rfl (.inr rfl)

end Machine

end SpiralMachine
