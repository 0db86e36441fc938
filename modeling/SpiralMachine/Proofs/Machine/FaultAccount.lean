import Mathlib.Data.List.Forall2
import Mathlib.Order.Lattice
import SpiralMachine.Proofs.Machine.Dispatch
import SpiralMachine.Proofs.Machine.Reachable

/-!
# The account of faults

A fault is noted twice, as a failure and as a lesson in the mansion, and the mansion takes
in the findings of audits between the two. `execute_fault_account` says that a run notes
each of its faults exactly once in either place, in order, and that no fault ends it; and that
in every reachable machine the failures and the lessons of failed instructions are still the
same faults. It follows from `runSteps_machine`, which reads what a run notes off its
dispatches.
-/

set_option autoImplicit false

namespace SpiralMachine

/-- A lesson keeps the longest beginning of its text that the limit allows. -/
theorem lesson_longest (text : String) :
    (lesson text).toList <+: text.toList ∧ (lesson text).toList.length ≤ lessonLimit ∧
      ∀ other, other <+: text.toList → other.length ≤ lessonLimit →
        other.length ≤ (lesson text).toList.length := by
  have hlesson : (lesson text).toList = text.toList.take lessonLimit := String.toList_ofList
  rw [hlesson]
  refine ⟨List.take_prefix _ _, List.length_take_le _ _, ?_⟩
  intro other hother hlimit
  rw [List.length_take]
  exact le_min hlimit hother.length_le

namespace Dispatch

/-- The failures and the lessons that a run notes are the same faults in the same order. -/
theorem forall₂_lesson_failure (run : List Dispatch) (ip : Nat) :
    List.Forall₂ (fun lesson failure ↦ lesson.lesson = SpiralMachine.lesson failure.error)
      (run.filterMap lesson?)
      ((run.zipIdx ip).filterMap fun (dispatch, ip) ↦ dispatch.failure? ip) := by
  induction run generalizing ip with
  | nil => exact .nil
  | cons dispatch rest ih =>
    cases hfault : dispatch.fault? with
    | none => simpa [lesson?, failure?, hfault] using ih (ip + 1)
    | some fault => simpa [lesson?, failure?, hfault] using ⟨rfl, ih (ip + 1)⟩

end Dispatch

namespace Machine

/-- The lessons of failed instructions and the failures are the same faults in one order. -/
def FaultsAligned (machine : Machine) : Prop :=
  List.Forall₂ (fun lesson failure ↦ lesson.lesson = SpiralMachine.lesson failure.error)
    (machine.mansion.filter (·.kind = .exception)) machine.failures.failures

theorem FaultsAligned.execute {machine : Machine} (h : machine.FaultsAligned) (host : Host)
    (program : Program) (mode : Mode) :
    (machine.execute host program mode).1.machine.FaultsAligned := by
  obtain ⟨_, _, _, _, added, _, hadded, hmachine⟩ := runSteps_machine machine.config
    program.steps (machine.started program mode) host 0
  unfold FaultsAligned
  rw [execute_machine, hmachine, List.filter_append, hadded]
  exact List.rel_append h (Dispatch.forall₂_lesson_failure _ _)

/-- In every reachable machine the two accounts of faults agree. -/
theorem Reachable.faultsAligned {admitted : Crystal → Prop} {machine : Machine}
    (h : Reachable admitted machine) : machine.FaultsAligned := by
  induction h with
  | new config sink => exact .nil
  | configure config sink _ ih => exact ih
  | execute host program mode _ ih => exact ih.execute host program mode
  | restore crystal _ _ hrestore _ =>
    obtain ⟨registers, -, rfl⟩ := restore_eq hrestore
    exact .nil

/-- What a run has noted after some of its steps is the beginning of what it notes later. -/
theorem runSteps_take_prefix (flags : Config) (steps : List Step) (machine : Machine)
    (host : Host) {early late : Nat} (hle : early ≤ late) :
    let noted (count : Nat) := (runSteps flags (steps.take count) machine host 0).machine
    (noted early).mansion <+: (noted late).mansion ∧
      (noted early).failures.failures <+: (noted late).failures.failures := by
  have hsplit : steps.take late = steps.take early ++ (steps.drop early).take (late - early) := by
    rw [← List.take_add, Nat.add_sub_cancel' hle]
  dsimp only
  rw [hsplit, runSteps_append]
  split
  · exact ⟨List.prefix_rfl, List.prefix_rfl⟩
  · generalize runSteps flags (steps.take early) machine host 0 = reached
    obtain ⟨_, _, _, _, added, _, _, hmachine⟩ := runSteps_machine flags
      ((steps.drop early).take (late - early)) reached.machine reached.host reached.faults
    rw [hmachine]
    exact ⟨List.prefix_append _ _, List.prefix_append _ _⟩

/-- How the run of a program ends: with a summary that counts its faults, with the error of
the dispatch that ended it, or with the failure of the save at its end. -/
theorem execute_result (machine : Machine) (host : Host) (program : Program) (mode : Mode) :
    let run := machine.executed host program mode
    let progress := runSteps machine.config program.steps (machine.started program mode) host 0
    let result := (machine.execute host program mode).2
    (∀ summary, result = .ok summary →
      summary.faults = (run.filterMap Dispatch.fault?).length) ∧
    ∀ error, result = .error error →
      run.getLast?.bind Dispatch.fatal? = some error ∨
        ∃ cause, error = .persistence cause ∧
          (progress.machine.save progress.host machine.config.crystalPath).2 = some cause := by
  obtain ⟨hfaults, -, hfailure, -, -⟩ := runSteps_outcome machine.config program.steps
    (machine.started program mode) host 0
  rw [Nat.zero_add] at hfaults
  dsimp only [executed] at *
  rw [execute_eq, ← hfailure, ← hfaults]
  dsimp only
  split
  · rename_i error _ hend
    refine ⟨?_, ?_⟩ <;> intro _ h
    · cases h
    · cases h
      exact .inl hend
  · rename_i cause _ hsaved
    refine ⟨?_, ?_⟩ <;> intro _ h
    · cases h
    · cases h
      exact .inr ⟨cause, rfl, hsaved⟩
  · refine ⟨?_, ?_⟩ <;> intro _ h
    · cases h
      rfl
    · cases h

/-- Every run notes each of its faults once in either account, in the order of the program:
as a failure with the opcode's name, the instruction's index and the text of the fault, and as
a lesson with the longest beginning of that text that the limit allows and with register A
as the instruction found it. Its summary counts them. Both accounts only grow while it runs,
and nothing but an exhausted node budget or the save at its end makes it fail. In every
machine that is reached by runs and restored crystals the two accounts hold the same
faults. -/
theorem execute_fault_account :
    (∀ (machine : Machine) (host : Host) (program : Program) (mode : Mode),
      let run := machine.executed host program mode
      let reached (count : Nat) := runSteps machine.config (program.steps.take count)
        (machine.started program mode) host 0
      let final := (machine.execute host program mode).1.machine
      let result := (machine.execute host program mode).2
      final.failures.failures = machine.failures.failures ++
        run.zipIdx.filterMap (fun (dispatch, index) ↦ dispatch.fault?.map fun fault ↦
          { op := dispatch.instruction.opcode.name, ip := index, error := fault.message }) ∧
      (∃ added, final.mansion = machine.mansion ++ added ∧
        added.filter (·.kind = .exception) =
          run.filterMap fun dispatch ↦ dispatch.fault?.map fun fault ↦
            { kind := .exception
              vector := dispatch.before.registers.get .a
              lesson := lesson fault.message }) ∧
      (∀ early late, early ≤ late →
        (reached early).machine.mansion <+: (reached late).machine.mansion ∧
          (reached early).machine.failures.failures <+:
            (reached late).machine.failures.failures) ∧
      (∀ summary, result = .ok summary →
        summary.faults = (run.filterMap Dispatch.fault?).length) ∧
      ∀ error, result = .error error →
        (∃ last ∈ run.getLast?, last.fatal? = some error ∧
          error = .capacityExceeded last.after.mesh.size machine.config.maxMeshNodes) ∨
        ∃ cause, error = .persistence cause ∧
          (final.save (reached program.size).host machine.config.crystalPath).2 = some cause) ∧
    (∀ text : String, (lesson text).toList <+: text.toList ∧ (lesson text).toList.length ≤ 120 ∧
      ∀ other, other <+: text.toList → other.length ≤ 120 →
        other.length ≤ (lesson text).toList.length) ∧
    ∀ machine : Machine, Reachable (fun _ ↦ True) machine →
      List.Forall₂ (fun lesson failure ↦ lesson.lesson = SpiralMachine.lesson failure.error)
        (machine.mansion.filter (·.kind = .exception)) machine.failures.failures := by
  refine ⟨?_, lesson_longest, fun machine ↦ Reachable.faultsAligned⟩
  intro machine host program mode
  obtain ⟨_, _, _, _, added, _, hadded, hmachine⟩ := runSteps_machine machine.config
    program.steps (machine.started program mode) host 0
  obtain ⟨hsummary, herror⟩ := execute_result machine host program mode
  dsimp only at hsummary herror ⊢
  have hall : program.steps.take program.size = program.steps := List.take_length
  refine ⟨?_, ⟨added, ?_, hadded⟩, fun early late ↦ runSteps_take_prefix _ _ _ _, hsummary, ?_⟩
  · rw [execute_machine, hmachine]
    rfl
  · rw [execute_machine, hmachine]
    rfl
  · intro error hresult
    rw [hall, execute_machine]
    refine (herror error hresult).imp_left ?_
    intro hfatal
    obtain ⟨last, hlast, hfatal⟩ := Option.bind_eq_some_iff.mp hfatal
    exact ⟨last, hlast, hfatal, fatal?_of_mem_dispatches (List.mem_of_getLast? hlast) hfatal⟩

/-- A search for a node that is missing: the machine it leaves has both notes of its fault. -/
theorem fault_account_of_missing_node :
    let search := Program.ofInstructions [.spiral 1 .a, .seek (some "ghost") .b]
    let machine :=
      ((Machine.new .default .none).execute ⟨.empty, [], 0⟩ search .simulate).1.machine
    Reachable (fun _ ↦ True) machine ∧
      machine.failures.failures = [⟨"SEEK", 1, "mesh node 'ghost' not found"⟩] ∧
      List.Forall₂ (fun lesson failure ↦ lesson.lesson = SpiralMachine.lesson failure.error)
        (machine.mansion.filter (·.kind = .exception)) machine.failures.failures := by
  intro search machine
  have hreached : Reachable (fun _ ↦ True) machine := .execute _ _ _ (.new _ _)
  refine ⟨hreached, ?_, execute_fault_account.2.2 machine hreached⟩
  show (execute _ _ _ _).1.machine.failures.failures = _
  rw [execute_machine]
  decide +kernel

end Machine

end SpiralMachine
