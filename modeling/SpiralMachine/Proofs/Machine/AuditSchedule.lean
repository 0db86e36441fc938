import Mathlib.Data.Nat.Factorization.Basic
import SpiralMachine.Proofs.Core.Depth
import SpiralMachine.Proofs.Machine.Turn
import SpiralMachine.Proofs.Mesh.Resonance

/-!
# When audits take place

An audit takes place after an instruction that does not end the run, if the number of instructions
until then is a multiple of the spiral depth (`audits_iff`). It measures the mesh once more,
but nothing has touched the mesh since the instruction: what it finds can be read off the log
(`findings_eq`). `execute_audit_schedule` says so of a run. Where no instruction changes
the depth the audits are as many as the multiples of it (`countP_audits`), since the turns that
do not end the run have all the places from the first one on.
-/

set_option autoImplicit false

namespace SpiralMachine

/-- The score of a mesh is a number, so that it is below the bound if it does not reach it. -/
theorem Mesh.not_resonance_ge_iff (mesh : Mesh) :
    ¬mesh.resonance ≥ goldenInverse ↔ mesh.resonance < goldenInverse := by
  have hmesh := (within_resonance mesh).finite
  have hbound := within_goldenInverse.finite
  rw [ge_iff_le, Number.le_iff hbound hmesh, Number.lt_iff hmesh hbound, not_le]

/-- Items are counted by their places. -/
theorem countP_eq_card_places {α : Type} (items : List α) (counts : α → Bool) :
    items.countP counts =
      ((Finset.Ioc 0 items.length).filter fun place ↦ items[place - 1]?.any counts).card := by
  induction items using List.reverseRecOn with
  | nil => rfl
  | append_singleton items last ih =>
    have hplaces : (Finset.Ioc 0 items.length).filter
          (fun place ↦ (items ++ [last])[place - 1]?.any counts) =
        (Finset.Ioc 0 items.length).filter fun place ↦ items[place - 1]?.any counts := by
      refine Finset.filter_congr fun place hplace ↦ ?_
      rw [Finset.mem_Ioc] at hplace
      rw [List.getElem?_append_left (by omega)]
    have hlast : (items ++ [last])[items.length + 1 - 1]? = some last := List.getElem?_concat_length
    rw [List.countP_append, List.countP_singleton, ih, List.length_append, List.length_singleton,
      ← Finset.insert_Ioc_right_eq_Ioc_add_one (Nat.zero_le _), Finset.filter_insert, hplaces,
      hlast, Option.any_some]
    split
    · rw [Finset.card_insert_of_notMem]
      simp
    · rfl

namespace Turn

variable (turn : Turn)

theorem audits_iff : turn.audits ↔
    turn.dispatch.fatal? = none ∧ 0 < turn.dispatch.after.spiralDepth.toNat ∧
      (turn.start.machine.ip + 1) % turn.dispatch.after.spiralDepth.toNat = 0 := by
  have hmoved : turn.moved.ip = turn.start.machine.ip + 1 := congrArg (· + 1) turn.noted_ip
  have hdepth : turn.moved.spiralDepth = turn.dispatch.after.spiralDepth :=
    congrArg Core.spiralDepth turn.noted_core
  rw [audits, Bool.and_eq_true, decide_eq_true_iff, Machine.auditIsDue_iff, hmoved, hdepth]

/-- An audit finds a collapse where the log has a score below the bound. -/
theorem findings_eq : turn.findings =
    if turn.audits ∧ turn.dispatch.entry.after < goldenInverse then
      [.of .resonanceCollapse turn.dispatch.after.registers.a collapseLesson]
    else [] := by
  have hscore : ¬turn.dispatch.after.mesh.resonance ≥ goldenInverse ↔
      turn.dispatch.entry.after < goldenInverse := Mesh.not_resonance_ge_iff _
  have haudits := turn.audits_iff
  unfold findings Core.findings
  by_cases hfatal : turn.dispatch.fatal? = none
  · rw [if_pos hfatal]
    refine if_congr ?_ rfl rfl
    rw [haudits, hscore]
    tauto
  · rw [if_neg hfatal, if_neg fun h ↦ hfatal (haudits.mp h.1).1]

/-- Of what turns add to the mansion, the collapses are as many as the audits that find one. -/
theorem countP_added (turns : List Turn) :
    (turns.flatMap fun turn ↦ turn.dispatch.lesson?.toList ++ turn.findings).countP
        (·.kind = .resonanceCollapse) =
      turns.countP fun turn ↦ turn.audits && turn.dispatch.entry.after < goldenInverse := by
  induction turns with
  | nil => rfl
  | cons turn rest ih =>
    have hlesson : turn.dispatch.lesson?.toList.countP (·.kind = .resonanceCollapse) = 0 := by
      rw [List.countP_eq_zero]
      intro lesson hlesson
      obtain ⟨fault, -, rfl⟩ := Option.map_eq_some_iff.mp (Option.mem_toList.mp hlesson)
      exact Bool.false_ne_true
    have hfindings : turn.findings.countP (·.kind = .resonanceCollapse) =
        if turn.audits && turn.dispatch.entry.after < goldenInverse then 1 else 0 := by
      rw [findings_eq]
      by_cases hfound : turn.audits ∧ turn.dispatch.entry.after < goldenInverse
      · simp [hfound, Lesson.of]
      · rw [if_neg hfound, if_neg (by simpa using hfound)]
        rfl
    rw [List.flatMap_cons, List.countP_append, List.countP_append, hlesson, hfindings, ih,
      List.countP_cons, Nat.zero_add, Nat.add_comm]

/-- An instruction makes of the depth what it does by itself, whatever comes of it. -/
theorem after_spiralDepth : turn.dispatch.after.spiralDepth =
    turn.step.instruction.depthAfter turn.start.machine.spiralDepth := by
  have hafter := (Machine.dispatched_after turn.start.machine turn.start.host turn.flags
    turn.step).1
  exact (congrArg Core.spiralDepth hafter).trans (Core.apply_spiralDepth ..)

/-- Without `spiral` the depth stays as it was. -/
theorem Leads.after_spiralDepth {flags : Config} {start final : Machine.Effect}
    {turns : List Turn} (h : Leads flags start turns final)
    (hspiral : ∀ turn ∈ turns, turn.step.instruction.opcode ≠ .spiral) {turn : Turn}
    (hturn : turn ∈ turns) :
    turn.dispatch.after.spiralDepth = start.machine.spiralDepth := by
  induction h with
  | nil => cases hturn
  | cons first _ _ ih =>
    rw [List.forall_mem_cons] at hspiral
    have hfirst : first.dispatch.after.spiralDepth = first.start.machine.spiralDepth :=
      first.after_spiralDepth.trans (Instruction.depthAfter_of_ne_spiral hspiral.1 _)
    rcases List.mem_cons.mp hturn with rfl | hturn
    · exact hfirst
    · refine (ih hspiral.2 hturn).trans (Eq.trans ?_ hfirst)
      exact congrArg Core.spiralDepth first.stop_core

end Turn

namespace Machine

/-- The turns of a program that do not end its run. -/
def completed (machine : Machine) (host : Host) (program : Program) (mode : Mode) : List Turn :=
  (machine.course host program mode).filter (·.dispatch.fatal? = none)

section Schedule

variable {machine : Machine} {host : Host} {program : Program} {mode : Mode}

/-- The turns that do not end the run have the first places. -/
theorem course_getElem?_of_completed {index : Nat} {turn : Turn}
    (hturn : (machine.completed host program mode)[index]? = some turn) :
    (machine.course host program mode)[index]? = some turn := by
  have hprefix : machine.completed host program mode <+: machine.course host program mode :=
    filter_prefix_turns ..
  obtain ⟨hlt, rfl⟩ := List.getElem?_eq_some_iff.mp hturn
  exact List.prefix_iff_getElem?.mp hprefix index hlt

/-- What is counted of the turns that do not end the run is counted by their places. -/
theorem countP_course (counts : Turn → Bool)
    (hcounts : ∀ turn, counts turn → turn.dispatch.fatal? = none) :
    (machine.course host program mode).countP counts =
      ((Finset.Ioc 0 (machine.completed host program mode).length).filter fun place ↦
        (machine.course host program mode)[place - 1]?.any counts).card := by
  have hcompleted : (machine.course host program mode).countP counts =
      (machine.completed host program mode).countP counts := by
    rw [completed, List.countP_filter]
    refine List.countP_congr fun turn _ ↦ ?_
    simpa using hcounts turn
  rw [hcompleted, countP_eq_card_places]
  refine congrArg Finset.card (Finset.filter_congr fun place hplace ↦ ?_)
  have hlt : place - 1 < (machine.completed host program mode).length := by
    rw [Finset.mem_Ioc] at hplace
    omega
  have hturn := List.getElem?_eq_getElem hlt
  rw [hturn, course_getElem?_of_completed hturn]

/-- Where no instruction changes the depth, an audit takes place at each multiple of it. -/
theorem audits_iff_dvd
    (hspiral : ∀ step ∈ program.steps, step.instruction.opcode ≠ .spiral) {index : Nat}
    {turn : Turn} (hturn : (machine.completed host program mode)[index]? = some turn) :
    turn.audits ↔ 0 < machine.spiralDepth.toNat ∧ machine.spiralDepth.toNat ∣ index + 1 := by
  have hcourse := course_getElem?_of_completed hturn
  have hfatal : turn.dispatch.fatal? = none := by
    simpa using (List.mem_filter.mp (List.mem_of_getElem? hturn)).2
  have hdepth : turn.dispatch.after.spiralDepth = machine.spiralDepth :=
    (machine.leads_course host program mode).after_spiralDepth
      (fun other hother ↦ hspiral _ (step_mem_of_mem_course hother))
      (List.mem_of_getElem? hcourse)
  rw [turn.audits_iff, hdepth, course_ip hcourse, Nat.dvd_iff_mod_eq_zero]
  exact and_iff_right hfatal

end Schedule

/-- The mansion after the run of a program: what was there, and what each of its turns adds. -/
theorem execute_mansion (machine : Machine) (host : Host) (program : Program) (mode : Mode) :
    (machine.execute host program mode).1.machine.mansion = machine.mansion ++
      (machine.course host program mode).flatMap fun turn ↦
        turn.dispatch.lesson?.toList ++ turn.findings := by
  rw [execute_machine]
  exact (machine.leads_course host program mode).mansion_eq

/-- The log after the run of a program: what was there, and an entry of each of its turns. -/
theorem execute_log (machine : Machine) (host : Host) (program : Program) (mode : Mode) :
    (machine.execute host program mode).1.machine.log =
      machine.log ++ (machine.course host program mode).map (·.dispatch.entry) := by
  rw [execute_machine]
  exact (machine.leads_course host program mode).log_eq

/-- When audits take place is settled by the log and the depth. After an instruction that does not
end the run a collapse is noted, with register A as it is then and after the lesson of the
instruction, exactly if the number of instructions until then is a multiple of the depth, which
is not zero, and the score in the log is below the bound. Nothing else in a run notes a collapse.
So a program without `spiral` at some depth has as many audits as its completed instructions
have that depth in them, and notes as many collapses as there are scores below the bound after
multiples of the depth. -/
theorem execute_audit_schedule (machine : Machine) (host : Host) (program : Program)
    (mode : Mode) :
    let course := machine.course host program mode
    let completed := course.filter (·.dispatch.fatal? = none)
    let final := (machine.execute host program mode).1.machine
    final.log = machine.log ++ course.map (·.dispatch.entry) ∧
    final.mansion = machine.mansion ++
      course.flatMap (fun turn ↦ turn.dispatch.lesson?.toList ++ turn.findings) ∧
    (∀ (index : Nat) (turn : Turn), course[index]? = some turn →
      let after := turn.dispatch.after
      let depth := after.spiralDepth.toNat
      turn.stop = (if turn.audits then turn.moved.audit turn.done.1.host
        else ⟨turn.moved, turn.done.1.host⟩) ∧
      turn.stop.machine.mansion =
        turn.start.machine.mansion ++ (turn.dispatch.lesson?.toList ++ turn.findings) ∧
      turn.findings =
        if turn.dispatch.fatal? = none ∧ 0 < depth ∧ (index + 1) % depth = 0 ∧
            turn.dispatch.entry.after < goldenInverse then
          [.of .resonanceCollapse (after.registers.get .a) collapseLesson]
        else []) ∧
    ((∀ step ∈ program.steps, step.instruction.opcode ≠ .spiral) →
      let depth := machine.spiralDepth.toNat
      0 < depth →
      course.countP Turn.audits = completed.length / depth ∧
      final.mansion.countP (·.kind = .resonanceCollapse) =
        machine.mansion.countP (·.kind = .resonanceCollapse) +
          ((Finset.Ioc 0 completed.length).filter fun place ↦ depth ∣ place ∧
            course[place - 1]?.any (·.dispatch.entry.after < goldenInverse)).card) := by
  dsimp only
  refine ⟨execute_log .., execute_mansion .., ?_, ?_⟩
  · intro index turn hturn
    refine ⟨turn.stop_eq_audit, turn.stop_mansion,
      turn.findings_eq.trans (if_congr ?_ rfl rfl)⟩
    rw [turn.audits_iff, course_ip hturn, and_assoc, and_assoc]
  · intro hspiral hdepth
    have hplaces (place : Nat)
        (hplace : place ∈ Finset.Ioc 0 (machine.completed host program mode).length) :
        ∃ turn, (machine.course host program mode)[place - 1]? = some turn ∧
          (turn.audits ↔ machine.spiralDepth.toNat ∣ place) := by
      rw [Finset.mem_Ioc] at hplace
      have hturn := List.getElem?_eq_getElem
        (show place - 1 < (machine.completed host program mode).length by omega)
      refine ⟨_, course_getElem?_of_completed hturn, ?_⟩
      rw [audits_iff_dvd hspiral hturn, Nat.sub_add_cancel hplace.1]
      exact and_iff_right hdepth
    refine ⟨?_, ?_⟩
    · rw [countP_course _ fun turn haudits ↦ (turn.audits_iff.mp haudits).1,
        ← Nat.Ioc_filter_dvd_card_eq_div]
      refine congrArg Finset.card (Finset.filter_congr fun place hplace ↦ ?_)
      obtain ⟨turn, hturn, haudits⟩ := hplaces place hplace
      simp [hturn, haudits]
    · rw [execute_mansion, List.countP_append, Turn.countP_added, countP_course _ fun turn hfound ↦
        (turn.audits_iff.mp (Bool.and_eq_true_iff.mp hfound).1).1]
      refine congrArg (_ + Finset.card ·) (Finset.filter_congr fun place hplace ↦ ?_)
      obtain ⟨turn, hturn, haudits⟩ := hplaces place hplace
      simp [hturn, haudits]

/-- At depth 2 five instructions have two audits. The first finds a mesh of one node coherent; the
second finds a node that has come to nothing, and notes so after the fault of the fourth
instruction. -/
theorem audit_schedule_of_void_node :
    let machine := { Machine.new .default .none with spiralDepth := 2 }
    let program := Program.ofInstructions [.init true, .bound .a 0.0 0.0,
      .mesh (some "void") (some ["origin"]), .seek (some "ghost") .b, .phi .a]
    let final := (machine.execute ⟨.empty, [], 0⟩ program .simulate).1.machine
    (∀ step ∈ program.steps, step.instruction.opcode ≠ .spiral) ∧ 0 < machine.spiralDepth.toNat ∧
      (machine.course ⟨.empty, [], 0⟩ program .simulate).countP Turn.audits = 2 ∧
      final.mansion.map (·.kind) = [.exception, .resonanceCollapse] ∧
      final.mansion.countP (·.kind = .resonanceCollapse) = 1 := by
  intro machine program final
  have hspiral : ∀ step ∈ program.steps, step.instruction.opcode ≠ .spiral := by
    simp [program, Program.ofInstructions, Instruction.opcode]
  have hdepth : 0 < machine.spiralDepth.toNat := by decide
  obtain ⟨-, hmansion, -, hschedule⟩ :=
    execute_audit_schedule machine ⟨.empty, [], 0⟩ program .simulate
  obtain ⟨haudits, hcollapses⟩ := hschedule hspiral hdepth
  refine ⟨hspiral, hdepth, haudits.trans ?_, (congrArg _ hmansion).trans ?_, hcollapses.trans ?_⟩
  · decide +kernel
  · decide +kernel
  · decide +kernel

end Machine

end SpiralMachine
