import SpiralMachine.Proofs.Machine.AuditSchedule
import SpiralMachine.Proofs.Machine.Modes
import SpiralMachine.Proofs.Machine.Telling

/-!
# Entering ARM

A run enters ARM in an audit that notes a collapse when enough was learned, and in no other way;
and every such audit leaves it in ARM (`arms_spec`, `stop_mode_of_audits`). It leaves ARM by a
fork alone, so that between two times it enters ARM there is a fork (`Leads.countP_arms_le`).
`execute_arming` puts this together for the run of a program, and counts its events.
-/

set_option autoImplicit false

namespace SpiralMachine

/-- How often ARM is entered among modes in a row. -/
def Mode.armings (modes : List Mode) : Nat :=
  (modes.zip modes.tail).countP fun (earlier, later) ↦ earlier ≠ .arm && later = .arm

theorem Mode.armings_cons_cons (earlier later : Mode) (rest : List Mode) :
    armings (earlier :: later :: rest) =
      armings (later :: rest) + if earlier ≠ .arm && later = .arm then 1 else 0 := by
  rw [armings, List.tail_cons, List.zip_cons_cons, List.countP_cons]
  rfl

namespace Turn

variable (turn : Turn)

/-! ### One turn -/

theorem stop_forkCount : turn.stop.machine.forkCount =
    turn.start.machine.forkCount + if turn.forks then 1 else 0 := by
  rw [turn.stop_forking.1, ready_machine]
  split <;> rfl

/-- Before its instruction a turn does not enter ARM. -/
theorem ready_mode_ne_arm (hstart : turn.start.machine.mode ≠ .arm) :
    turn.ready.machine.mode ≠ .arm := by
  rw [ready_mode]
  split
  · exact nofun
  · exact hstart

/-- ARM is left before an instruction that forks, and is not left otherwise. -/
theorem forks_of_leaves (hstart : turn.start.machine.mode = .arm)
    (hready : turn.ready.machine.mode ≠ .arm) : turn.forks := by
  by_contra hforks
  rw [ready_mode, if_neg hforks] at hready
  exact hready hstart

/-- After its instruction a turn does not leave ARM. -/
theorem stop_mode_of_arm (harm : turn.ready.machine.mode = .arm) :
    turn.stop.machine.mode = .arm := by
  rw [stop_mode]
  split
  · rfl
  · exact harm

variable {turn}

/-- Where an audit notes anything and enough was learned, it leaves ARM as the mode. -/
theorem stop_mode_of_audits
    (hcollapse : ∃ lesson, turn.stop.machine.mansion = turn.moved.mansion ++ [lesson])
    (hlearned : armLimit < turn.stop.machine.mansion.length) :
    turn.stop.machine.mode = .arm := by
  obtain ⟨lesson, hlesson⟩ := hcollapse
  rw [stop_mansion_moved, List.append_cancel_left_eq] at hlesson
  rw [stop_mode, if_pos]
  exact ⟨by simp [hlesson], hlearned⟩

/-- A turn that enters ARM has found something, and enough was learned. -/
theorem found_of_arms (harms : turn.arms) :
    turn.findings ≠ [] ∧ armLimit < turn.stop.machine.mansion.length := by
  obtain ⟨hready, hstop⟩ := turn.arms_iff.mp harms
  by_contra hquiet
  rw [stop_mode, if_neg hquiet] at hstop
  exact hready hstop

/-- ARM is entered in an audit that has just noted a collapse, when enough was learned and the
mesh is incoherent. -/
theorem arms_spec (harms : turn.arms) :
    turn.audits ∧ armLimit < turn.stop.machine.mansion.length ∧
      turn.stop.machine.mansion = turn.moved.mansion ++
        [.of .resonanceCollapse turn.stop.machine.registers.a collapseLesson] ∧
      turn.stop.machine.mesh.resonance < goldenInverse := by
  obtain ⟨hsome, hlearned⟩ := found_of_arms harms
  have hfindings := turn.findings_eq
  have hfound : turn.audits ∧ turn.dispatch.entry.after < goldenInverse := by
    by_contra hnothing
    rw [if_neg hnothing] at hfindings
    exact hsome hfindings
  rw [if_pos hfound, ← stop_core] at hfindings
  refine ⟨hfound.1, hlearned, ?_, ?_⟩
  · rw [stop_mansion_moved, hfindings]
  · rw [stop_core]
    exact hfound.2

/-- Each time a turn enters ARM that was in it before, it has forked in between. -/
theorem arms_le :
    (if turn.arms then 1 else 0) + (if turn.start.machine.mode = .arm then 1 else 0) ≤
      (if turn.forks then 1 else 0) + if turn.stop.machine.mode = .arm then 1 else 0 := by
  by_cases hstart : turn.start.machine.mode = .arm
  · by_cases hready : turn.ready.machine.mode = .arm
    · have hquiet : ¬turn.arms := fun harms ↦ (turn.arms_iff.mp harms).1 hready
      simp [hquiet, hstart, stop_mode_of_arm turn hready]
    · have hforks := turn.forks_of_leaves hstart hready
      by_cases harms : turn.arms
      · simp [harms, hforks, (turn.arms_iff.mp harms).2, hstart]
      · simp [harms, hforks, hstart]
  · by_cases harms : turn.arms
    · simp [harms, hstart, (turn.arms_iff.mp harms).2]
    · simp [harms, hstart]

/-- Of the events of a turn one tells that ARM was entered, if it was. -/
theorem countP_tells :
    turn.tells.countP (·.1 = "arm_entered") = if turn.arms then 1 else 0 := by
  have hreport : (turn.ready.machine.report turn.flags turn.done.2
      turn.step.instruction).filter (·.1 = "arm_entered") = [] :=
    filter_eq_nil_of_types Machine.report_types (· = "arm_entered") (by decide)
  have htells := turn.filter_tells (· = "arm_entered")
  rw [if_neg (by decide), if_neg (by decide), hreport, List.nil_append, List.nil_append] at htells
  rw [List.countP_eq_length_filter, htells, Machine.verdict]
  split
  · rename_i hnothing
    rw [if_neg fun harms ↦ (found_of_arms harms).1 hnothing]
    rfl
  · split <;> rfl

theorem countP_flatMap_tells (turns : List Turn) :
    (turns.flatMap tells).countP (·.1 = "arm_entered") = turns.countP arms :=
  countP_flatMap_of_ite (fun _ ↦ countP_tells) turns

/-! ### A run -/

variable {flags : Config} {start final : Machine.Effect} {turns : List Turn}

theorem Leads.forkCount_eq (h : Leads flags start turns final) :
    final.machine.forkCount = start.machine.forkCount + turns.countP forks := by
  induction h with
  | nil => rfl
  | cons turn _ _ ih =>
    rw [ih, stop_forkCount, List.countP_cons]
    omega

/-- ARM is entered in the turns that arm, and nowhere else. -/
theorem Leads.armings_modes (h : Leads flags start turns final) :
    Mode.armings (start.machine.mode :: turns.flatMap modes) = turns.countP arms := by
  induction h with
  | nil => rfl
  | @cons turn rest _ _ _ ih =>
    have hmodes : (turn :: rest).flatMap modes = turn.ready.machine.mode ::
        turn.dispatch.after.mode :: turn.stop.machine.mode :: rest.flatMap modes := rfl
    have hready : (turn.start.machine.mode ≠ .arm && turn.ready.machine.mode = .arm) = false := by
      simpa using turn.ready_mode_ne_arm
    rw [hmodes, Mode.armings_cons_cons, Mode.armings_cons_cons, Mode.armings_cons_cons, ih,
      hready, after_mode, List.countP_cons]
    simp [arms, after_mode]

/-- ARM is entered once more at most than there are forks, also if turns begin in it. -/
theorem Leads.countP_arms_le (h : Leads flags start turns final) :
    turns.countP arms + (if start.machine.mode = .arm then 1 else 0) ≤ turns.countP forks + 1 := by
  induction h with
  | nil start =>
    split <;> simp
  | cons turn _ _ ih =>
    have hturn := turn.arms_le
    rw [List.countP_cons, List.countP_cons]
    omega

end Turn

namespace Machine

/-- Every run enters ARM soundly and completely: between its turns and before and at their
instructions the mode does not become ARM, and after an instruction it does so in an audit alone
that has just noted a collapse, at more than ten lessons and a score below the bound; and after each
audit that has noted one, at more than ten lessons, it is ARM. It does not leave ARM but by a fork.
So ARM is entered once more at most than there are forks, even if a run that begins in it is taken
to enter it there, and so often it is told. -/
theorem execute_arming (machine : Machine) (host : Host) (program : Program) (mode : Mode) :
    let flags := machine.config
    let course := machine.course host program mode
    let modes := machine.modes host program mode
    let final := (machine.execute host program mode).1
    (∀ turn ∈ course,
      let start := turn.start.machine
      let ready := turn.ready.machine
      let stop := turn.stop.machine
      turn.stop = (if turn.audits then turn.moved.audit turn.done.1.host
        else ⟨turn.moved, turn.done.1.host⟩) ∧
      (start.mode ≠ .arm → ready.mode ≠ .arm) ∧
      turn.dispatch.after.mode = ready.mode ∧
      (ready.mode ≠ .arm → stop.mode = .arm →
        turn.audits ∧ 10 < stop.mansion.length ∧
        stop.mansion = turn.moved.mansion ++
          [.of .resonanceCollapse (stop.registers.get .a) collapseLesson] ∧
        stop.mesh.resonance < goldenInverse) ∧
      (turn.audits → (∃ lesson, stop.mansion = turn.moved.mansion ++ [lesson]) →
        10 < stop.mansion.length → stop.mode = .arm) ∧
      (start.mode = .arm → ready.mode ≠ .arm → flags.forkTracking ∧ turn.step.forks) ∧
      (ready.mode = .arm → stop.mode = .arm)) ∧
    final.machine.forkCount = machine.forkCount + course.countP Turn.forks ∧
    Mode.armings modes + (if startMode flags mode = .arm then 1 else 0) ≤
      course.countP Turn.forks + 1 ∧
    (course.flatMap Turn.tells).countP (·.1 = "arm_entered") = Mode.armings modes ∧
    (machine.sink = .memory →
      final.host.events.countP (·.eventType = "arm_entered") =
        host.events.countP (·.eventType = "arm_entered") + Mode.armings modes) := by
  have hcourse := machine.leads_course host program mode
  have harmings : Mode.armings (machine.modes host program mode) =
      (machine.course host program mode).countP Turn.arms := hcourse.armings_modes
  have htells := Turn.countP_flatMap_tells (machine.course host program mode)
  dsimp only
  refine ⟨fun turn hturn ↦ ?_, ?_, ?_, ?_, fun hsink ↦ ?_⟩
  · refine ⟨turn.stop_eq_audit, turn.ready_mode_ne_arm, turn.after_mode, fun hready hstop ↦ ?_,
      fun _ ↦ Turn.stop_mode_of_audits, fun harm hleft ↦ ?_, turn.stop_mode_of_arm⟩
    · exact Turn.arms_spec (turn.arms_iff.mpr ⟨hready, hstop⟩)
    · have hforks := turn.forks_of_leaves harm hleft
      rw [Turn.forks, hcourse.flags_eq hturn, Bool.and_eq_true] at hforks
      exact hforks
  · rw [execute_machine]
    exact hcourse.forkCount_eq
  · rw [harmings]
    exact hcourse.countP_arms_le
  · rw [harmings, htells]
  · have htold := congrArg (List.countP (·.1 = "arm_entered"))
      (told_execute hsink host program mode)
    rw [List.countP_append, htells, ← harmings] at htold
    simpa [Host.told, List.countP_map, Function.comp_def] using htold

/-- Ten lessons were learned before. The third instruction leaves an incoherent mesh, which arms the
machine; the fourth forks, and the audit after it arms the machine once more. -/
theorem arming_of_void_node :
    let machine :=
      { Machine.new { Config.default with forkTracking := true } .memory with
        spiralDepth := 1
        mansion := List.replicate 10 (.of .exception .zero "") }
    let host : Host := ⟨.empty, [], 0⟩
    let program : Program := ⟨[⟨.init true, false⟩, ⟨.bound .a 0.0 0.0, false⟩,
      ⟨.mesh (some "void") (some ["origin"]), false⟩, ⟨.phi .a, true⟩]⟩
    let course := machine.course host program .simulate
    let final := (machine.execute host program .simulate).1
    (∃ turn ∈ course, turn.ready.machine.mode = .simulate ∧ turn.stop.machine.mode = .arm ∧
      turn.stop.machine.mansion.length = 11 ∧
      turn.stop.machine.mesh.resonance < goldenInverse) ∧
    Mode.armings (machine.modes host program .simulate) = 2 ∧
    final.machine.forkCount = 1 ∧
    final.host.events.countP (·.eventType = "arm_entered") = 2 := by
  intro machine host program course final
  obtain ⟨hturns, hforks, -, -, hevents⟩ := execute_arming machine host program .simulate
  have hthird : course[2]?.map (fun turn ↦ (turn.ready.machine.mode, turn.stop.machine.mode,
      turn.stop.machine.mansion.length)) = some (.simulate, .arm, 11) := by decide +kernel
  obtain ⟨turn, hturn, hvalues⟩ := Option.map_eq_some_iff.mp hthird
  obtain ⟨hready, hvalues⟩ := Prod.mk.inj hvalues
  obtain ⟨hstop, hlength⟩ := Prod.mk.inj hvalues
  obtain ⟨-, -, -, harms, -⟩ := hturns turn (List.mem_of_getElem? hturn)
  obtain ⟨-, -, -, hcollapse⟩ := harms (by rw [hready]; exact nofun) hstop
  have hmodes : Mode.armings (machine.modes host program .simulate) = 2 := by decide +kernel
  have hforked : course.countP Turn.forks = 1 := by decide +kernel
  refine ⟨⟨turn, List.mem_of_getElem? hturn, hready, hstop, hlength, hcollapse⟩, hmodes, ?_, ?_⟩
  · rw [hforks, hforked]
    rfl
  · rw [hevents rfl, hmodes]
    rfl

end Machine

end SpiralMachine
