import SpiralMachine.Proofs.Core.Finite
import SpiralMachine.Proofs.Machine.Audit
import SpiralMachine.Proofs.Machine.Resume

/-!
# A machine keeps its numbers finite

`Reachable.numbers_finite` says that whatever numbers a machine is given in the arguments of its
programs, and whatever text it takes over, it only ever has finite ones: in its registers and
nodes, in its lessons and in its log. So it can always be written down, and only the files can
stand in the way.

The core is finite because no instruction makes anything else (`Core.apply_finite`). A lesson
holds what register A held. An entry of the log holds the resonance of two meshes, which is
bounded for nodes of whatever vectors (`Mesh.within_resonance`), and the difference of the
two. What a step adds is therefore finite (`perform_settled`), and `Settled` holds of all
reachable machines by induction (`Reachable.settled`).
-/

set_option autoImplicit false

namespace SpiralMachine

open Number

/-! ### Registers that are taken over -/

namespace Crystal

/-- The registers that names stand for hold vectors of the crystal. -/
theorem exists_of_mem_namedRegisters {entries : List (String × SpiralVector)}
    {registers : List (Register × SpiralVector)} (h : namedRegisters entries = .ok registers)
    {held : Register × SpiralVector} (hheld : held ∈ registers) :
    ∃ entry ∈ entries, entry.2 = held.2 := by
  induction entries generalizing registers with
  | nil =>
    cases h
    cases hheld
  | cons entry rest ih =>
    obtain ⟨name, vector⟩ := entry
    unfold namedRegisters at h
    split at h
    · obtain ⟨others, hothers, h⟩ := Except.exists_of_bind h
      cases h
      rcases List.mem_cons.mp hheld with rfl | hheld
      · exact ⟨_, List.mem_cons_self, rfl⟩
      · obtain ⟨entry, hentry, heq⟩ := ih hothers hheld
        exact ⟨entry, List.mem_cons_of_mem _ hentry, heq⟩
    · cases h

/-- What all vectors that are set have, and all registers of the file had, the registers have. -/
theorem get_foldl_set (holds : SpiralVector → Prop) {registers : List (Register × SpiralVector)}
    (h : ∀ held ∈ registers, holds held.2) {file : RegisterFile}
    (hfile : ∀ register, holds (file.get register)) (register : Register) :
    holds ((registers.foldl
      (fun file (register, vector) ↦ file.set register vector) file).get register) := by
  induction registers generalizing file with
  | nil => exact hfile register
  | cons held rest ih =>
    rw [List.forall_mem_cons] at h
    refine ih h.2 fun other ↦ ?_
    rw [RegisterFile.get_set]
    split
    · exact h.1
    · exact hfile other

end Crystal

namespace Machine

/-! ### One step -/

/-- All numbers of a machine are finite: those which it keeps, and those of its lessons. -/
structure Settled (machine : Machine) : Prop extends machine.Finite where
  lessons : ∀ lesson ∈ machine.mansion, lesson.vector.isFinite

theorem Settled.core {machine : Machine} (h : machine.Settled) : machine.toCore.Finite :=
  ⟨h.nodes, h.registers⟩

/-- The entry of any dispatch is finite, since the resonance of a mesh is bounded. -/
theorem isFinite_entry (dispatch : Dispatch) : dispatch.entry.isFinite := by
  have hbefore := dispatch.before.mesh.within_resonance
  have hafter := dispatch.after.mesh.within_resonance
  have hbound : IsDouble (2 ^ 60) := isDouble_two_pow (by norm_num)
  have hdelta := hafter.sub hbefore (by rw [zero_sub]; exact hbound.neg)
    (by rw [sub_zero]; exact hbound)
  show (_ && _ && _) = true
  rw [Bool.and_eq_true, Bool.and_eq_true]
  exact ⟨⟨hbefore.finite, hafter.finite⟩, hdelta.finite⟩

/-- What a step adds to a machine is finite. -/
theorem perform_settled {machine : Machine} (h : machine.Settled) (host : Host) (flags : Config)
    (step : Step) : (machine.perform host flags step).1.machine.Settled := by
  have hafter : (machine.dispatched host flags step).after.toCore.Finite := by
    rw [(dispatched_after machine host flags step).1]
    exact Core.apply_finite h.core _
      (fun last hlast ↦ h.lessons last (List.mem_of_getLast? hlast)) _
  have hlessons : ∀ lesson ∈ (machine.perform host flags step).1.machine.mansion,
      lesson.vector.isFinite := by
    rw [perform_mansion]
    intro lesson hlesson
    rcases List.mem_append.mp hlesson with hold | hadded
    · exact h.lessons lesson hold
    rcases List.mem_append.mp hadded with hfault | hfound
    · obtain ⟨fault, -, rfl⟩ := Option.map_eq_some_iff.mp (Option.mem_toList.mp hfault)
      have hbefore : (machine.dispatched host flags step).before.toCore.Finite := by
        rw [dispatched_before]
        exact h.core
      exact hbefore.registers .a
    · split at hfound
      · cases hfound
      · rw [Core.mem_findings hfound]
        exact hafter.registers .a
  obtain ⟨_, _, _, _, -, hperform⟩ := perform_machine machine host flags step
  refine ⟨⟨?_, ?_, ?_⟩, hlessons⟩
  · rw [hperform]
    exact hafter.mesh
  · rw [hperform]
    exact hafter.registers
  · rw [hperform]
    intro entry hentry
    rcases List.mem_append.mp hentry with hold | hnew
    · exact h.log entry hold
    · rw [List.mem_singleton.mp hnew]
      exact isFinite_entry _

/-! ### All reachable machines -/

theorem settled_new (config : Config) (sink : EventSink) : (new config sink).Settled where
  nodes := Core.finite_fresh.mesh
  registers := Core.finite_fresh.registers
  log := fun _ hentry ↦ nomatch hentry
  lessons := fun _ hlesson ↦ nomatch hlesson

theorem settled_restore {machine restored : Machine} {crystal : Crystal}
    (hrestore : machine.restore crystal = .ok restored) (h : crystal.Finite) :
    restored.Settled := by
  obtain ⟨registers, hregisters, rfl⟩ := restore_eq hrestore
  refine ⟨⟨h.nodes, fun register ↦ ?_, h.log⟩, fun _ hlesson ↦ nomatch hlesson⟩
  refine Crystal.get_foldl_set (fun v ↦ v.isFinite) (fun held hheld ↦ ?_)
    Core.finite_fresh.registers register
  obtain ⟨entry, hentry, heq⟩ := Crystal.exists_of_mem_namedRegisters hregisters hheld
  rw [← heq]
  exact h.registers entry hentry

/-- All numbers of a machine that is reached by runs and by crystals from texts are finite. -/
theorem Reachable.settled {machine : Machine}
    (h : Reachable (fun crystal ↦ ∃ text, Crystal.ofText? text = some crystal) machine) :
    machine.Settled := by
  induction h with
  | new config sink => exact settled_new config sink
  | configure config sink _ ih => exact ⟨⟨ih.nodes, ih.registers, ih.log⟩, ih.lessons⟩
  | @execute machine host program mode _ ih =>
    rw [execute_machine]
    have hstarted : (machine.started program mode).Settled :=
      ⟨⟨ih.nodes, ih.registers, ih.log⟩, ih.lessons⟩
    exact runSteps_invariant Settled (fun _ host step hnext ↦ perform_settled hnext host _ step)
      _ hstarted _ _
  | restore crystal _ hadmitted hrestore _ =>
    obtain ⟨text, htext⟩ := hadmitted
    exact settled_restore hrestore (Crystal.finite_of_ofText? htext)

/-- The crystal of a machine with finite numbers passes the check, and is written down. -/
theorem toText_of_finite {machine : Machine} (h : machine.Finite) :
    machine.crystal.checkFinite = .ok () ∧ machine.toText = .ok machine.crystal.text := by
  have hcheck : machine.crystal.checkFinite = .ok () := by
    rw [Crystal.checkFinite, Crystal.flaw?_eq_none_iff.mpr (crystal_finite_iff.mpr h)]
  refine ⟨hcheck, ?_⟩
  rw [toText, hcheck]
  rfl

end Machine

end SpiralMachine
