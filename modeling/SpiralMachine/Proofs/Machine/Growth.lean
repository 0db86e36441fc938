import SpiralMachine.Proofs.Core.Growth
import SpiralMachine.Proofs.Machine.Turn

/-!
# The mesh of a run only grows

Every instruction but an INIT that clears the mesh lets it grow, so that the turns of a run without
one do (`Leads.mesh_grows`), however the run ends. `execute_mesh_grows` says what this means for the
run of a program: no node is lost or moved, connections are kept and none is repeated, and nothing
but CRYST writes to a memory.
-/

set_option autoImplicit false

namespace SpiralMachine

namespace Turn

/-- A turn lets the mesh grow, unless it was to be cleared. -/
theorem stop_mesh_grows (turn : Turn) (h : turn.step.instruction ≠ .init true) :
    turn.start.machine.mesh.Grows turn.stop.machine.mesh := by
  have hafter : turn.dispatch.after.toCore = _ :=
    (Machine.dispatched_after turn.start.machine turn.start.host turn.flags turn.step).1
  rw [turn.stop_core, hafter]
  exact Core.apply_grows _ _ _ h

/-- Turns that do not clear the mesh let it grow. -/
theorem Leads.mesh_grows {flags : Config} {start final : Machine.Effect} {turns : List Turn}
    (h : Leads flags start turns final)
    (hkeeps : ∀ turn ∈ turns, turn.step.instruction ≠ .init true) :
    start.machine.mesh.Grows final.machine.mesh := by
  induction h with
  | nil start => exact .refl start.machine.mesh
  | cons turn _ _ ih =>
    rw [List.forall_mem_cons] at hkeeps
    exact (turn.stop_mesh_grows hkeeps.1).trans (ih hkeeps.2)

end Turn

namespace Machine

/-- A program that does not clear the mesh lets it grow, however its run ends. The ids before are a
prefix of those after, which are distinct, and under each of them stands its node. Each old node
keeps its connections, and gets none that it has; its connections are without repetition if they
were, and those of new nodes are. No key of a memory but those that CRYST writes is changed, and no
other is written to a new node. -/
theorem execute_mesh_grows (machine : Machine) (host : Host) (program : Program) (mode : Mode)
    (hkeeps : ∀ step ∈ program.steps, step.instruction ≠ .init true) :
    let final := (machine.execute host program mode).1.machine
    machine.mesh.ids <+: final.mesh.ids ∧
      final.mesh.ids.Nodup ∧
      (∀ entry ∈ final.mesh.entries, final.mesh.get? entry.1 = some entry.2) ∧
      (∀ id node, machine.mesh.get? id = some node →
        ∃ later, final.mesh.get? id = some later ∧
          (∃ added, later.connections = node.connections ++ added ∧ added.Nodup ∧
            ∀ target ∈ added, target ∉ node.connections) ∧
          (node.connections.Nodup → later.connections.Nodup) ∧
          ∀ key, key ≠ "crystal" → key ≠ "crystal_depth" →
            later.memory.lookup key = node.memory.lookup key) ∧
      ∀ id node, id ∉ machine.mesh.ids → final.mesh.get? id = some node →
        node.connections.Nodup ∧
          ∀ key, key ≠ "crystal" → key ≠ "crystal_depth" → node.memory.lookup key = none := by
  have hgrows : machine.mesh.Grows (machine.execute host program mode).1.machine.mesh := by
    rw [execute_machine]
    exact (machine.leads_course host program mode).mesh_grows fun turn hturn ↦
      hkeeps turn.step (step_mem_of_mem_course hturn)
  refine ⟨hgrows.ids, Mesh.ids_nodup _, fun entry hentry ↦ Mesh.get?_of_mem hentry,
    fun id node hnode ↦ ?_, fun id node hnew hnode ↦ ?_⟩
  · obtain ⟨later, hlater, hgrown⟩ := hgrows.get? hnode
    exact ⟨later, hlater, hgrown.connections, hgrown.nodup, hgrown.memory⟩
  · have hgrown := hgrows.nodes id node hnode
    rw [Mesh.get?_eq_none_iff.mpr hnew] at hgrown
    exact ⟨hgrown.nodup List.nodup_nil, hgrown.memory⟩

/-- There is room for three nodes. The one that is there, under an id of a cycle, is connected to
itself and to the same id again and again, and the cycle finds no room for its last node. -/
theorem mesh_grows_of_full_cycle :
    let node : Node :=
      { vector := .seed, memory := [("note", .string "kept")], connections := ["b", "b"],
        resonance := 1.0 }
    let machine := { Machine.new { Config.default with maxMeshNodes := 3 } .none with
      mesh := .ofList [("cycle_1", node)] }
    let host : Host := ⟨.empty, [], 0⟩
    let program := Program.ofInstructions [.mesh (some "cycle_1") (some ["c", "b", "cycle_1", "c"]),
      .cryst none, .mesh none none, .cycle 1 0 3]
    let final := (machine.execute host program .execute).1.machine
    (∀ step ∈ program.steps, step.instruction ≠ .init true) ∧
      final.mesh.ids = ["cycle_1", "node_1", "cycle_0"] ∧
      ∃ later, final.mesh.get? "cycle_1" = some later ∧
        later.connections = ["b", "b", "c", "cycle_1"] ∧
        later.memory.lookup "note" = some (.string "kept") := by
  intro node machine host program
  have hkeeps : ∀ step ∈ program.steps, step.instruction ≠ .init true := by
    simp [program, Program.ofInstructions]
  have hids : (runSteps machine.config program.steps (machine.started program .execute) host
      0).machine.mesh.ids = ["cycle_1", "node_1", "cycle_0"] := by decide +kernel
  have hconnections : ((runSteps machine.config program.steps (machine.started program .execute)
      host 0).machine.mesh.get? "cycle_1").map (·.connections) =
        some ["b", "b", "c", "cycle_1"] := by decide +kernel
  obtain ⟨-, -, -, hkept, -⟩ := machine.execute_mesh_grows host program .execute hkeeps
  obtain ⟨later, hlater, -, -, hmemory⟩ := hkept "cycle_1" node rfl
  rw [← execute_machine] at hids hconnections
  rw [hlater] at hconnections
  exact ⟨hkeeps, hids, later, hlater, Option.some.inj hconnections,
    hmemory "note" (by decide) (by decide)⟩

end Machine

end SpiralMachine
