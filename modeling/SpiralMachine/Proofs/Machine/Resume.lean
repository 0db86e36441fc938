import SpiralMachine.Proofs.Core.Legible
import SpiralMachine.Proofs.Machine.Agreement
import SpiralMachine.Proofs.Machine.Reachable
import SpiralMachine.Proofs.Machine.Restore

/-!
# A run is resumed from a crystal

`execute_restoreText` says that a machine can be written down after any run and be taken over by
any other machine of the same node budget, and that a program which does not look at past
lessons then does the same there as it would have done here. Two facts carry it: the
memories of a reachable machine can be read back (`Reachable.legible`), so that the crystal
brings over all of the core and the log; and no instruction but `bloom` looks at anything
else (`execute_agrees`).
-/

set_option autoImplicit false

namespace SpiralMachine.Machine

/-- The memories of a machine that is reached by runs and by crystals from texts can be read
back. -/
theorem Reachable.legible {machine : Machine}
    (h : Reachable (fun crystal ↦ ∃ text, Crystal.ofText? text = some crystal) machine) :
    machine.mesh.Legible :=
  h.core (fun core ↦ core.mesh.Legible) Mesh.legible_empty
    (fun _ budget lesson instruction hcore ↦ Core.apply_legible hcore budget lesson instruction)
    fun _ _ ⟨_, htext⟩ ↦ Crystal.legible_of_ofText? htext

theorem holding_agrees (machine kept : Machine) : (machine.holding kept).Agrees kept := ⟨rfl, rfl⟩

/-- A machine with finite numbers, reached by whatever runs and crystals from texts, is written
down, and every machine of the same node budget takes it over from the text. A program without
`bloom` that runs there, in any mode, host and sink and under any other flags, leaves the
same mesh, registers, depth and log as it does where the machine was written down, and exhausts the
budget with the same numbers or not at all. -/
theorem execute_restoreText {machine other : Machine}
    (hreached : Reachable (fun crystal ↦ ∃ text, Crystal.ofText? text = some crystal) machine)
    (hfinite : machine.Finite)
    (hbudget : other.config.maxMeshNodes = machine.config.maxMeshNodes) :
    ∃ text resumed, machine.toText = .ok text ∧ other.restoreText text = .ok resumed ∧
      ∀ program : Program, .bloom ∉ program.steps.map Step.instruction →
        ∀ (host otherHost : Host) (mode otherMode : Mode),
          let direct := machine.execute host program mode
          let later := resumed.execute otherHost program otherMode
          later.1.machine.mesh = direct.1.machine.mesh ∧
            later.1.machine.registers = direct.1.machine.registers ∧
            later.1.machine.spiralDepth = direct.1.machine.spiralDepth ∧
            later.1.machine.log = direct.1.machine.log ∧
            ∀ current max, later.2 = .error (.capacityExceeded current max) ↔
              direct.2 = .error (.capacityExceeded current max) := by
  obtain ⟨htext, hrestored⟩ := restoreText_text other hfinite hreached.legible
  refine ⟨machine.crystal.text, other.holding machine, htext, hrestored, ?_⟩
  intro program hbloom host otherHost mode otherMode
  obtain ⟨hagrees, hcapacity⟩ := execute_agrees (other.holding_agrees machine) hbudget rfl hbloom
    otherHost host otherMode mode
  exact ⟨congrArg Core.mesh hagrees.core, congrArg Core.registers hagrees.core,
    congrArg Core.spiralDepth hagrees.core, hagrees.log, hcapacity⟩

/-- A machine that has remembered a crystal in a node, after a fault and under a spiral depth,
goes on where it is and from its text in a machine with other flags. -/
theorem execute_restoreText_of_crystallised_node :
    let setup := Program.ofInstructions
      [.init false, .mesh (some "a") none, .spiral 2 .b, .seek (some "ghost") .c, .cryst none]
    let machine :=
      ((Machine.new .default .none).execute ⟨.empty, [], 0⟩ setup .simulate).1.machine
    let other := Machine.new { Config.default with dryRun := true, narrativeMode := true } .memory
    let program := Program.ofInstructions [.mesh none none, .flow none none, .spec]
    Reachable (fun crystal ↦ ∃ text, Crystal.ofText? text = some crystal) machine ∧
      machine.Finite ∧ .bloom ∉ program.steps.map Step.instruction ∧
      ∃ text resumed, machine.toText = .ok text ∧ other.restoreText text = .ok resumed ∧
        (resumed.execute ⟨.empty, [], 7⟩ program .execute).1.machine.log =
          (machine.execute ⟨.empty, [], 0⟩ program .trace).1.machine.log := by
  intro setup machine other program
  have hreached : Reachable (fun crystal ↦ ∃ text, Crystal.ofText? text = some crystal) machine :=
    .execute _ _ _ (.new _ _)
  have hfinite : machine.Finite := by
    rw [← crystal_finite_iff, ← Crystal.flaw?_eq_none_iff]
    show (execute _ _ _ _).1.machine.crystal.flaw? = none
    rw [execute_machine]
    decide +kernel
  have hconfig : machine.config = .default :=
    execute_config (.new .default .none) ⟨.empty, [], 0⟩ setup .simulate
  have hbudget : other.config.maxMeshNodes = machine.config.maxMeshNodes := by
    rw [hconfig]
    rfl
  obtain ⟨text, resumed, htext, hrestored, hruns⟩ :=
    execute_restoreText hreached hfinite hbudget
  have hbloom : .bloom ∉ program.steps.map Step.instruction := by
    simp [program, Program.ofInstructions]
  exact ⟨hreached, hfinite, hbloom, text, resumed, htext, hrestored,
    (hruns program hbloom _ _ _ _).2.2.2.1⟩

end SpiralMachine.Machine
