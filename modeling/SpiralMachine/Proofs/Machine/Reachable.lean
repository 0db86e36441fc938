import SpiralMachine.Proofs.Machine.Dispatch

/-!
# Reachable machines

The machines that come of a fresh one by running programs, by taking over crystals and by a
change of the configuration or the event sink, in any order and number. `Reachable.core` says of
all of them what every instruction preserves.
-/

set_option autoImplicit false

namespace SpiralMachine.Machine

/-- The machines that are reached when only admitted crystals are taken over. -/
inductive Reachable (admitted : Crystal → Prop) : Machine → Prop where
  | new (config : Config) (sink : EventSink) : Reachable admitted (.new config sink)
  | configure {machine : Machine} (config : Config) (sink : EventSink) :
    Reachable admitted machine → Reachable admitted { machine with config, sink }
  | execute {machine : Machine} (host : Host) (program : Program) (mode : Mode) :
    Reachable admitted machine →
      Reachable admitted (machine.execute host program mode).1.machine
  | restore {machine restored : Machine} (crystal : Crystal) :
    Reachable admitted machine → admitted crystal → machine.restore crystal = .ok restored →
      Reachable admitted restored

/-- A restored machine has the crystal's part of the state and is fresh in all else. -/
theorem restore_eq {machine restored : Machine} {crystal : Crystal}
    (h : machine.restore crystal = .ok restored) :
    ∃ registers, Crystal.namedRegisters crystal.registers = .ok registers ∧
      restored = { new machine.config machine.sink with
        mesh := crystal.mesh
        registers := Crystal.registerFile registers
        spiralDepth := crystal.spiralDepth
        log := crystal.log } := by
  unfold restore at h
  cases hregisters : Crystal.namedRegisters crystal.registers with
  | error cause => rw [hregisters] at h; cases h
  | ok registers => rw [hregisters] at h; cases h; exact ⟨registers, rfl, rfl⟩

/-- What the fresh core and every admitted crystal have, and every instruction preserves, is
true of the core of every reachable machine. -/
theorem Reachable.core {admitted : Crystal → Prop} (holds : Core → Prop) (hfresh : holds .fresh)
    (happly : ∀ core budget lesson instruction, holds core →
      holds ((core.apply budget lesson instruction).result core))
    (hcrystal : ∀ crystal registers, admitted crystal →
      holds ⟨crystal.mesh, registers, crystal.spiralDepth⟩)
    {machine : Machine} (h : Reachable admitted machine) : holds machine.toCore := by
  induction h with
  | new config sink => exact hfresh
  | configure config sink _ ih => exact ih
  | execute host program mode _ ih =>
    rw [execute_machine]
    exact runSteps_core happly _ _ (show holds (started _ program mode).toCore from ih) _ _
  | restore crystal _ hadmitted hrestore _ =>
    obtain ⟨registers, -, rfl⟩ := restore_eq hrestore
    exact hcrystal crystal _ hadmitted

end SpiralMachine.Machine
