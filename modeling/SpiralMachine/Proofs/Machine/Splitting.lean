import SpiralMachine.Proofs.Machine.Agreement

/-!
# A program run in two parts

`execute_append` says that a program without `bloom` may be cut anywhere: its two parts run one
after the other leave the same mesh, registers, depth and log as the whole, and the
second part exhausts the node budget where the whole does. A second run starts over at its
first step, in a mode of its own, and after a save that may have failed; none of this is seen by
`runSteps_agrees`.
-/

set_option autoImplicit false

namespace SpiralMachine.Machine

/-- The steps of a program come to their end unless they exhaust the node budget. -/
theorem runSteps_failure_eq_none {machine : Machine} {host : Host} {program : Program} {mode : Mode}
    (h : ∀ current max,
      (machine.execute host program mode).2 ≠ .error (.capacityExceeded current max)) :
    (runSteps machine.config program.steps (machine.started program mode) host 0).failure =
      none := by
  rw [Option.eq_none_iff_forall_ne_some]
  intro error hfailure
  obtain rfl := runSteps_failure hfailure
  exact h _ _ ((execute_capacityExceeded_iff machine host program mode).mpr hfailure)

/-- A program without `bloom` that is cut in two leaves the same mesh, registers, depth and log as
in one run, if its first part does not exhaust the node budget; and the second part exhausts it
exactly if the whole does, with the same numbers. The three runs may be in any modes and any
hosts, so that the saves at their ends may succeed or fail. -/
theorem execute_append (machine : Machine) {first second : Program}
    (hbloom : .bloom ∉ (first.steps ++ second.steps).map Step.instruction)
    (host firstHost secondHost : Host) (mode firstMode secondMode : Mode)
    (hroom : ∀ current max, (machine.execute firstHost first firstMode).2 ≠
      .error (.capacityExceeded current max)) :
    let whole := machine.execute host ⟨first.steps ++ second.steps⟩ mode
    let reached := (machine.execute firstHost first firstMode).1.machine
    let rest := reached.execute secondHost second secondMode
    rest.1.machine.mesh = whole.1.machine.mesh ∧
      rest.1.machine.registers = whole.1.machine.registers ∧
      rest.1.machine.spiralDepth = whole.1.machine.spiralDepth ∧
      rest.1.machine.log = whole.1.machine.log ∧
      ∀ current max, rest.2 = .error (.capacityExceeded current max) ↔
        whole.2 = .error (.capacityExceeded current max) := by
  rw [List.map_append, List.mem_append, not_or] at hbloom
  obtain ⟨hfirst, hsecond⟩ := hbloom
  have hconfig := execute_config machine firstHost first firstMode
  have hstarted : (machine.started first firstMode).Agrees
      (machine.started ⟨first.steps ++ second.steps⟩ mode) := ⟨rfl, rfl⟩
  -- both ways the steps of the first part lead to machines that agree
  obtain ⟨hreached, hfailure⟩ := runSteps_agrees hstarted rfl rfl hfirst firstHost host 0 0
  rw [runSteps_failure_eq_none hroom] at hfailure
  have hwhole := runSteps_append machine.config first.steps second.steps
    (machine.started ⟨first.steps ++ second.steps⟩ mode) host 0
  dsimp only at hwhole
  rw [← hfailure] at hwhole
  -- and so do the steps of the second
  have hrestarted : ((machine.execute firstHost first firstMode).1.machine.started second
      secondMode).Agrees (runSteps machine.config first.steps
        (machine.started ⟨first.steps ++ second.steps⟩ mode) host 0).machine := by
    rw [← execute_machine] at hreached
    exact ⟨hreached.core, hreached.log⟩
  obtain ⟨hagrees, hended⟩ := runSteps_agrees hrestarted (congrArg _ hconfig) rfl hsecond
    secondHost _ 0 _
  dsimp only
  rw [execute_machine _ secondHost, execute_machine machine host, hwhole]
  refine ⟨congrArg Core.mesh hagrees.core, congrArg Core.registers hagrees.core,
    congrArg Core.spiralDepth hagrees.core, hagrees.log, fun current max ↦ ?_⟩
  rw [execute_capacityExceeded_iff, execute_capacityExceeded_iff, hwhole]
  exact iff_of_eq (congrArg (· = _) hended)

/-- Two nodes are allowed. The first part makes one and meets a fault, and the save at its
end is refused since it has no path; the second part finds the mesh full where the whole
does. -/
theorem execute_append_of_full_mesh :
    let machine := Machine.new { Config.default with maxMeshNodes := 2, crystalPath := "" } .memory
    let host : Host := ⟨.empty, [], 0⟩
    let first := Program.ofInstructions [.mesh none none, .spiral 1 .a, .seek (some "ghost") .b]
    let second := Program.ofInstructions [.forge none ["node_0"], .mesh none none, .phi .a]
    .bloom ∉ (first.steps ++ second.steps).map Step.instruction ∧
      (∀ current max, (machine.execute host first .execute).2 ≠
        .error (.capacityExceeded current max)) ∧
      ((machine.execute host first .execute).1.machine.execute host second .trace).1.machine.log =
        (machine.execute host ⟨first.steps ++ second.steps⟩ .simulate).1.machine.log ∧
      ((machine.execute host first .execute).1.machine.execute host second .trace).2 =
        .error (.capacityExceeded 2 2) := by
  intro machine host first second
  have hbloom : .bloom ∉ (first.steps ++ second.steps).map Step.instruction := by
    simp [first, second, Program.ofInstructions]
  have hroom (current max : Nat) :
      (machine.execute host first .execute).2 ≠ .error (.capacityExceeded current max) := by
    intro hresult
    have hfailure := (execute_capacityExceeded_iff machine host first .execute).mp hresult
    have hnone : (runSteps machine.config first.steps (machine.started first .execute) host
        0).failure.isNone := by decide +kernel
    rw [hfailure] at hnone
    cases hnone
  have hfull : (runSteps machine.config (first.steps ++ second.steps)
      (machine.started ⟨first.steps ++ second.steps⟩ .simulate) host 0).failure.isSome := by
    decide +kernel
  have hsize : (runSteps machine.config (first.steps ++ second.steps)
      (machine.started ⟨first.steps ++ second.steps⟩ .simulate) host 0).machine.mesh.size = 2 := by
    decide +kernel
  obtain ⟨-, -, -, hlog, hcapacity⟩ := execute_append machine hbloom host host host
    .simulate .execute .trace hroom
  refine ⟨hbloom, hroom, hlog, (hcapacity 2 2).mpr ?_⟩
  obtain ⟨error, herror⟩ := Option.isSome_iff_exists.mp hfull
  rw [execute_capacityExceeded_iff, herror, runSteps_failure herror, hsize]
  rfl

end SpiralMachine.Machine
