import SpiralMachine.Proofs.Core.Footprint
import SpiralMachine.Proofs.Machine.Dispatch

/-!
# What an instruction leaves alone

`dispatch_footprint` says of a machine what `Core.apply_covers` says of its core: an instruction
changes nothing outside of its footprint. The mesh resonates as before after an instruction that is
still and after one that is a fault, and the log of a run shows it (`dispatched_resonance`).
-/

set_option autoImplicit false

namespace SpiralMachine.Machine

/-- A still instruction and one that the run recovers from have the same score before and after. -/
theorem dispatched_resonance {machine : Machine} {host : Host} {flags : Config} {step : Step}
    (h : step.instruction.isStill ∨ (machine.dispatched host flags step).fault?.isSome) :
    (machine.dispatched host flags step).entry.after =
      (machine.dispatched host flags step).entry.before := by
  change (machine.dispatched host flags step).after.mesh.resonance =
    (machine.dispatched host flags step).before.mesh.resonance
  rcases h with hstill | hfault
  · rw [(machine.dispatched_after host flags step).1, machine.dispatched_before host flags step]
    exact machine.toCore.apply_resonance _ _ hstill
  · obtain ⟨fault, hfault⟩ := Option.isSome_iff_exists.mp hfault
    rw [dispatched_recoverable hfault]

/-- An instruction leaves alone what is not in its footprint. However it ends, it changes the core
and nothing else. It changes registers and parts of nodes that are in its footprint only, unless it
is an INIT that clears the mesh, and then it has all registers in its footprint. FLOW gives each
node one connection more, at most. The depth is changed by SPIRAL alone, and never decreases. Hence
in the log of every run the score is the same before and after each instruction that is still, and
each that is a fault. -/
theorem dispatch_footprint (machine : Machine) (host : Host) :
    (∀ flags instruction,
      let done := (machine.dispatch host flags instruction).1.machine
      done = { machine with toCore := done.toCore } ∧
      (instruction ≠ .init true →
        (machine.toCore.footprint instruction).Covers machine.toCore done.toCore) ∧
      (instruction.opcode = .flow → ∀ id node, machine.mesh.get? id = some node →
        ∃ later added, done.mesh.get? id = some later ∧
          later.connections = node.connections ++ added ∧ added.length ≤ 1) ∧
      (instruction.opcode ≠ .spiral → done.spiralDepth = machine.spiralDepth) ∧
      machine.spiralDepth ≤ done.spiralDepth) ∧
    ∀ program mode,
      let run := machine.executed host program mode
      let final := (machine.execute host program mode).1.machine
      final.log = machine.log ++ run.map Dispatch.entry ∧
      run.map Dispatch.instruction <+: program.steps.map Step.instruction ∧
      ∀ dispatch ∈ run, dispatch.instruction.isStill ∨ dispatch.fault?.isSome →
        dispatch.entry.after = dispatch.entry.before := by
  refine ⟨fun flags instruction ↦ ?_, fun program mode ↦ ⟨?_, ?_, fun dispatch hmem h ↦ ?_⟩⟩
  · dsimp only
    rw [dispatch_machine_eq]
    have hdepth := machine.toCore.apply_spiralDepth flags.maxMeshNodes machine.mansion.getLast?
      instruction
    refine ⟨rfl, fun hkeeps ↦ machine.toCore.apply_covers _ _ hkeeps, fun hflow id node hnode ↦ ?_,
      fun hspiral ↦ ?_, ?_⟩
    · cases instruction with
      | flow source target =>
        exact machine.toCore.apply_flow_connections _ _ source target hnode
      | _ => cases hflow
    · exact hdepth.trans (Instruction.depthAfter_of_ne_spiral hspiral machine.spiralDepth)
    · exact (instruction.le_depthAfter machine.spiralDepth).trans_eq hdepth.symm
  · obtain ⟨_, _, _, _, _, -, -, hmachine⟩ := runSteps_machine machine.config program.steps
      (machine.started program mode) host 0
    rw [execute_machine, hmachine]
    rfl
  · obtain ⟨-, -, -, hinstructions, -⟩ := runSteps_outcome machine.config program.steps
      (machine.started program mode) host 0
    exact hinstructions ▸ List.take_prefix ..
  · obtain ⟨step, -, reached, host, rfl⟩ := exists_of_mem_dispatches hmem
    exact dispatched_resonance h

/-- A flow from one of two nodes to the other, and a run in which the nodes are scored and one is
not found. -/
theorem footprint_of_flow_and_fault :
    let node : Node :=
      { vector := .seed, memory := [("note", .string "kept")], connections := ["a"],
        resonance := 0.5 }
    let machine := { Machine.new .default .none with
      mesh := .ofList [("a", node), ("b", .new .zero)] }
    let host : Host := ⟨.empty, [], 0⟩
    let done := (machine.dispatch host .default (.flow none none)).1.machine
    let run := machine.executed host (.ofInstructions [.sync 0.0 1.0, .mask (some "lost") .a])
      .execute
    (∃ later added, done.mesh.get? "a" = some later ∧ later.vector = node.vector ∧
      later.memory = node.memory ∧ later.resonance = node.resonance ∧
      later.connections = ["a"] ++ added ∧ added.length ≤ 1) ∧
    done.spiralDepth = machine.spiralDepth ∧
    ∀ dispatch ∈ run, dispatch.entry.after = dispatch.entry.before := by
  intro node machine host done run
  obtain ⟨hdispatch, hexecute⟩ := machine.dispatch_footprint host
  obtain ⟨-, hcovers, hconnections, hdepth, -⟩ := hdispatch .default (.flow none none)
  have hnode : machine.mesh.get? "a" = some node := rfl
  obtain ⟨later, hlater, hpermits⟩ := (hcovers nofun).mesh "a" node hnode
  obtain ⟨other, added, hother, hadded, hlength⟩ := hconnections rfl "a" node hnode
  obtain rfl := Option.some.inj (hlater.symm.trans hother)
  obtain ⟨-, -, hstill⟩ := hexecute (.ofInstructions [.sync 0.0 1.0, .mask (some "lost") .a])
    .execute
  have hquiet : run.all fun dispatch ↦
      dispatch.instruction.isStill || dispatch.fault?.isSome := by decide +kernel
  have hvector := hpermits.vector (by decide +kernel)
  have hmemory := hpermits.memory List.not_mem_nil
  refine ⟨⟨later, added, hlater, hvector, hmemory, hpermits.resonance rfl, hadded, hlength⟩,
    hdepth nofun, fun dispatch hmem ↦ ?_⟩
  exact hstill dispatch hmem (Bool.or_eq_true_iff.mp (List.all_eq_true.mp hquiet dispatch hmem))

end SpiralMachine.Machine
