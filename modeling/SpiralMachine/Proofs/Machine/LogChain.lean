import Mathlib.Data.List.Chain
import SpiralMachine.Proofs.Machine.Dispatch

/-!
# The resonance log is a chain

A run leaves one entry in the resonance log for each instruction it carries out, and what
is measured after one instruction is what is measured before the next. `execute_log_chain`
says this of every run, however it ends. It rests on `Linked`: between two instructions
nothing touches the core, so `entries_of_linked` measures the same mesh twice.
-/

set_option autoImplicit false

namespace SpiralMachine

namespace Dispatch

/-- The entries of linked dispatches: the first measures the core they start from, the last
the core they end in, and each goes on from the score that the one before it ends with. -/
theorem entries_of_linked {start stop : Core} {run : List Dispatch}
    (hlinked : Linked start run stop) :
    (∀ first ∈ (run.map entry).head?, first.before = start.mesh.resonance) ∧
      (run.map entry).IsChain (fun entry next ↦ entry.after = next.before) ∧
      (∀ last ∈ (run.map entry).getLast?, last.after = stop.mesh.resonance) := by
  induction run generalizing start with
  | nil => simp
  | cons dispatch rest ih =>
    obtain ⟨hbefore, hrest⟩ := hlinked
    obtain ⟨hhead, hchain, hlast⟩ := ih hrest
    refine ⟨?_, ?_, ?_⟩
    · intro first hfirst
      cases hfirst
      exact congrArg (·.mesh.resonance) hbefore
    · exact List.isChain_cons.mpr ⟨fun next hnext ↦ (hhead next hnext).symm, hchain⟩
    · cases rest with
      | nil =>
        intro last hlast
        cases hlast
        exact congrArg (·.mesh.resonance) hrest.symm
      | cons next others => simpa [List.getLast?_cons_cons] using hlast

end Dispatch

namespace Machine

/-- Every run carries out its instructions once each and in order: all of them, or, if one
is fatal, those up to and with it; each is dispatched by the machine which the run of the
steps before it leads to. Its log grows by one entry for each of them, with the opcode's name
and the difference of the two scores. The first entry starts from the mesh before the run,
each goes on from the one before it, and the last ends with the mesh after the run. -/
theorem execute_log_chain (machine : Machine) (host : Host) (program : Program) (mode : Mode) :
    let run := machine.executed host program mode
    let final := (machine.execute host program mode).1.machine
    (∀ index : Nat, run[index]? = program.steps[index]?.bind fun step ↦
      let reached := runSteps machine.config (program.steps.take index)
        (machine.started program mode) host 0
      if reached.failure.isNone then
        some (reached.machine.dispatched reached.host machine.config step)
      else none) ∧
    run.map Dispatch.instruction = (program.steps.map Step.instruction).take run.length ∧
    (∀ dispatch ∈ run.dropLast, dispatch.fatal? = none) ∧
    ((∀ dispatch ∈ run, dispatch.fatal? = none) → run.length = program.size) ∧
    final.ip = run.length ∧
    ∃ entries, final.log = machine.log ++ entries ∧
      List.Forall₂ (fun dispatch entry ↦ entry.op = dispatch.instruction.opcode.name ∧
        entry.delta = entry.after - entry.before) run entries ∧
      (∀ first ∈ entries.head?, first.before = machine.mesh.resonance) ∧
      entries.IsChain (fun entry next ↦ entry.after = next.before) ∧
      (∀ last ∈ entries.getLast?, last.after = final.mesh.resonance) := by
  obtain ⟨core, _, _, _, _, hlinked, _, hmachine⟩ := runSteps_machine machine.config
    program.steps (machine.started program mode) host 0
  obtain ⟨_, hearlier, hfailure, hinstructions, hlength⟩ := runSteps_outcome machine.config
    program.steps (machine.started program mode) host 0
  obtain ⟨hhead, hchain, hlast⟩ := Dispatch.entries_of_linked hlinked
  dsimp only
  rw [execute_machine, hmachine]
  refine ⟨dispatches_getElem? _ _ _ _ _, hinstructions, hearlier, ?_, ?_, ?_⟩
  · intro hnone
    refine hlength (hfailure.trans ?_)
    cases hrun : (machine.executed host program mode).getLast? with
    | none => exact congrArg (·.bind Dispatch.fatal?) hrun
    | some last =>
      exact (congrArg (·.bind Dispatch.fatal?) hrun).trans
        (hnone last (List.mem_of_getLast? hrun))
  · exact Nat.zero_add _
  · refine ⟨(machine.executed host program mode).map Dispatch.entry, rfl, ?_, hhead, hchain,
      hlast⟩
    rw [List.forall₂_map_right_iff]
    exact List.forall₂_same.mpr fun dispatch _ ↦ ⟨rfl, rfl⟩

end Machine

end SpiralMachine
