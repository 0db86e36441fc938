import SpiralMachine.Proofs.Machine.Arming
import SpiralMachine.Proofs.Machine.Reachable

/-!
# The event stream mirrors the state

What a machine tells of a run agrees with what the run leaves in it. A turn tells of its fork and of
its instruction once or not at all (`filter_tells_fork`, `filter_tells_narrative`), of a save unless
that is a fault (`countP_saves`), and of a collapse exactly if its audit notes one
(`countP_collapses`). That ARM was entered it tells directly after the collapse (`announced_tells`).
The forks of a machine count on from its fork count (`Leads.forks_eq`), which is why a reachable
machine has counted them from one (`Reachable.forks_eq`). `execute_event_stream` puts this together
for the run of a program.
-/

set_option autoImplicit false

namespace SpiralMachine

/-- What a payload holds under a key. -/
def Json.detail? (key : String) : Json → Option Json
  | .object members => members.lookup key
  | _ => none

/-- Each event that ARM was entered comes directly after an event of a collapse. -/
def Announced (events : List (String × Json)) : Prop :=
  ∀ before payload after, events = before ++ ("arm_entered", payload) :: after →
    ∃ earlier finding, before = earlier ++ [("resonance_collapse", finding)]

theorem announced_of_forall_ne {events : List (String × Json)}
    (h : ∀ event ∈ events, event.1 ≠ "arm_entered") : Announced events := by
  rintro before payload after rfl
  exact absurd rfl (h _ (List.mem_append_right before List.mem_cons_self))

theorem Announced.append {first second : List (String × Json)} (hfirst : Announced first)
    (hsecond : Announced second) : Announced (first ++ second) := by
  intro before payload after hsplit
  rcases List.append_eq_append_iff.mp hsplit with ⟨middle, rfl, hlater⟩ | ⟨middle, hearlier, hlater⟩
  · obtain ⟨earlier, finding, rfl⟩ := hsecond middle payload after hlater
    exact ⟨first ++ earlier, finding, (List.append_assoc ..).symm⟩
  · cases middle with
    | nil =>
      obtain ⟨earlier, finding, hnone⟩ := hsecond [] payload after hlater.symm
      simp at hnone
    | cons event rest =>
      obtain ⟨rfl, -⟩ := List.cons.inj hlater
      exact hfirst before payload rest hearlier

theorem Announced.flatMap {α : Type} {items : List α} {events : α → List (String × Json)}
    (h : ∀ item ∈ items, Announced (events item)) : Announced (items.flatMap events) := by
  induction items with
  | nil => exact announced_of_forall_ne nofun
  | cons item rest ih =>
    rw [List.forall_mem_cons] at h
    exact h.1.append (ih h.2)

/-- One event for each item that is to have one. -/
theorem flatMap_ite_singleton {α β : Type} (items : List α) (tells : α → Bool) (event : α → β) :
    (items.flatMap fun item ↦ if tells item then [event item] else []) =
      (items.filter tells).map event := by
  induction items with
  | nil => rfl
  | cons item rest ih =>
    rw [List.flatMap_cons, ih, List.filter_cons]
    split <;> rfl

namespace Turn

variable (turn : Turn)

/-! ### One turn -/

theorem stop_forks : turn.stop.machine.forks = turn.start.machine.forks ++
    if turn.forks then [turn.start.machine.forkCount + 1] else [] := by
  rw [turn.stop_forking.2, ready_machine]
  split
  · rfl
  · exact (List.append_nil _).symm

/-- Whether a turn tells of its instruction: in a dry run, or in TRACE once it has taken its own
fork. -/
def narrates : Bool := turn.ready.machine.mode = .trace || turn.flags.dryRun

/-- Whether the instruction of a turn is a save that was no fault. -/
def saves : Bool := turn.step.instruction.opcode = .save && turn.dispatch.fault?.isNone

theorem filter_tells_fork : turn.tells.filter (·.1 = "fork") =
    turn.start.machine.forking turn.flags turn.step := by
  have htells := turn.filter_tells (· = "fork")
  rw [filter_eq_nil_of_types Machine.report_types (· = "fork") (by decide),
    filter_eq_nil_of_types Machine.verdict_types (· = "fork") (by decide), if_pos (by decide),
    if_neg (by decide)] at htells
  simpa only [List.append_nil] using htells

theorem filter_tells_narrative : turn.tells.filter (·.1 = "op_narrative") =
    turn.ready.machine.narration turn.flags turn.step.instruction.opcode := by
  have htells := turn.filter_tells (· = "op_narrative")
  rw [filter_eq_nil_of_types Machine.report_types (· = "op_narrative") (by decide),
    filter_eq_nil_of_types Machine.verdict_types (· = "op_narrative") (by decide),
    if_neg (by decide), if_pos (by decide)] at htells
  simpa only [List.nil_append, List.append_nil] using htells

/-- Of a save it is reported once that it was carried out or skipped, unless it was a fault. -/
theorem countP_report_saves :
    (turn.ready.machine.report turn.flags turn.done.2 turn.step.instruction).countP
        (fun event ↦ event.1 = "save_skipped" ∨ event.1 = "crystal_saved") =
      if turn.saves then 1 else 0 := by
  cases hinstruction : turn.step.instruction with
  | save path =>
    have hdone : turn.done =
        turn.ready.machine.dispatch turn.ready.host turn.flags (.save path) := by
      rw [done, hinstruction]
    have hsaves : turn.saves = turn.dispatch.fault?.isNone := by
      rw [saves, hinstruction]
      rfl
    rw [hsaves]
    unfold Machine.report Dispatch.fault?
    dsimp only
    by_cases hattempts : turn.ready.machine.attemptsSave turn.flags
    · rw [if_pos hattempts]
      rcases turn.ready.machine.saveOpcode_outcome turn.ready.host turn.flags path with
        happlied | ⟨fault, hfault⟩
      · have houtcome : turn.done.2 = .applied := (congrArg Prod.snd hdone).trans happlied
        have hdispatch : turn.dispatch.outcome = .applied := houtcome
        rw [houtcome, hdispatch]
        rfl
      · have houtcome : turn.done.2 = .recoverable fault := (congrArg Prod.snd hdone).trans hfault
        have hdispatch : turn.dispatch.outcome = .recoverable fault := houtcome
        rw [houtcome, hdispatch]
        rfl
    · have hdispatch : turn.dispatch.outcome = .applied := by
        change turn.done.2 = .applied
        rw [hdone, Machine.dispatch_save_of_not_attempts hattempts]
        rfl
      rw [if_neg hattempts, hdispatch]
      rfl
  | sync here remote =>
    have hother : turn.saves = false := by
      rw [saves, hinstruction]
      rfl
    rw [hother, Machine.report]
    split <;> rfl
  | _ =>
    have hother : turn.saves = false := by
      rw [saves, hinstruction]
      rfl
    rw [hother]
    rfl

theorem countP_saves :
    turn.tells.countP (fun event ↦ event.1 = "save_skipped" ∨ event.1 = "crystal_saved") =
      if turn.saves then 1 else 0 := by
  let wanted (eventType : String) : Bool :=
    eventType = "save_skipped" ∨ eventType = "crystal_saved"
  have htells := turn.filter_tells wanted
  rw [filter_eq_nil_of_types Machine.verdict_types wanted (by decide), if_neg (by decide),
    if_neg (by decide), List.nil_append, List.nil_append, List.append_nil] at htells
  rw [← countP_report_saves, List.countP_eq_length_filter, htells, List.countP_eq_length_filter]

/-- A turn tells of a collapse exactly if its audit finds one. -/
theorem countP_collapses :
    turn.tells.countP (·.1 = "resonance_collapse") =
      if turn.audits && turn.dispatch.entry.after < goldenInverse then 1 else 0 := by
  have htells := turn.filter_tells (· = "resonance_collapse")
  rw [filter_eq_nil_of_types Machine.report_types (· = "resonance_collapse") (by decide),
    if_neg (by decide), if_neg (by decide), List.nil_append, List.nil_append] at htells
  have hfindings := turn.findings_eq
  rw [List.countP_eq_length_filter, htells, Machine.verdict]
  by_cases hfound : turn.audits ∧ turn.dispatch.entry.after < goldenInverse
  · have hcounted : (turn.audits && turn.dispatch.entry.after < goldenInverse) = true := by
      simpa using hfound
    rw [if_pos hfound] at hfindings
    rw [hfindings, hcounted, if_neg (List.cons_ne_nil _ _)]
    split <;> rfl
  · have hcounted : (turn.audits && turn.dispatch.entry.after < goldenInverse) = false := by
      simpa using hfound
    rw [if_neg hfound] at hfindings
    rw [hfindings, hcounted, if_pos rfl]
    rfl

/-- A turn tells that it enters ARM directly after it has told of the collapse. -/
theorem announced_tells : Announced turn.tells := by
  have hquiet {events : List (String × Json)} {types : List String}
      (h : ∀ event ∈ events, event.1 ∈ types) (hne : "arm_entered" ∉ types) :
      Announced events :=
    announced_of_forall_ne fun event hevent harms ↦ hne (harms ▸ h event hevent)
  refine .append (.append (.append ?_ ?_) ?_) ?_
  · exact announced_of_forall_ne fun event hevent ↦ by
      rw [Machine.forking_type event hevent]
      decide
  · exact announced_of_forall_ne fun event hevent ↦ by
      rw [Machine.narration_type event hevent]
      decide
  · exact hquiet Machine.report_types (by decide)
  · intro before payload after hsplit
    unfold Machine.verdict at hsplit
    split at hsplit
    · simp at hsplit
    · rcases List.cons_eq_append_iff.mp hsplit with ⟨-, hnone⟩ | ⟨earlier, rfl, hlater⟩
      · simp at hnone
      · split at hlater
        · rcases List.cons_eq_append_iff.mp hlater with ⟨rfl, -⟩ | ⟨_, -, hnone⟩
          · exact ⟨[], _, rfl⟩
          · simp at hnone
        · simp at hlater

/-! ### A run -/

variable {flags : Config} {start final : Machine.Effect} {turns : List Turn}

/-- The forks that turns add are counted on from the fork count. -/
theorem Leads.forks_eq (h : Leads flags start turns final) :
    final.machine.forks = start.machine.forks ++
      List.range' (start.machine.forkCount + 1) (turns.countP forks) := by
  induction h with
  | nil => exact (List.append_nil _).symm
  | cons turn _ _ ih =>
    rw [ih, stop_forks, stop_forkCount, List.countP_cons]
    split
    · simp [List.range'_succ]
    · simp

/-- What turns tell of forks is one event for each fork. -/
theorem flatMap_forking (turns : List Turn) :
    (turns.flatMap fun turn ↦ turn.start.machine.forking turn.flags turn.step) =
      (turns.filter forks).map fun turn ↦
        ("fork", .object [("count", .integer (turn.start.machine.forkCount + 1 : Nat)),
          ("ip", .integer turn.start.machine.ip)]) :=
  flatMap_ite_singleton turns forks _

/-- The turns that fork find the fork counts one after the other. -/
theorem Leads.forkCounts_eq (h : Leads flags start turns final) :
    ((turns.filter forks).map fun turn ↦ turn.start.machine.forkCount + 1) =
      List.range' (start.machine.forkCount + 1) (turns.countP forks) := by
  induction h with
  | nil => rfl
  | cons turn _ _ ih =>
    rw [List.countP_cons, List.filter_cons]
    by_cases hforks : turn.forks
    · rw [if_pos hforks, if_pos hforks, List.map_cons, ih, stop_forkCount, if_pos hforks,
        List.range'_succ]
    · rw [if_neg hforks, if_neg hforks, ih, stop_forkCount, if_neg hforks]
      rfl

/-- What turns tell of their instructions is one event for each that is narrated. -/
theorem flatMap_narration (turns : List Turn) :
    (turns.flatMap fun turn ↦
        turn.ready.machine.narration turn.flags turn.step.instruction.opcode).map
          (·.2.detail? "ip") =
      (turns.filter narrates).map fun turn ↦ some (.integer turn.start.machine.ip) := by
  have hip (turn : Turn) : turn.ready.machine.ip = turn.start.machine.ip := by
    rw [ready_machine]
    split <;> rfl
  have hevents := congrArg (List.map (·.2.detail? "ip")) (flatMap_ite_singleton turns narrates
    fun turn ↦ ("op_narrative", Json.object
      [("description", .string turn.step.instruction.opcode.description),
        ("glyph", .string turn.step.instruction.opcode.glyph),
        ("ip", .integer turn.ready.machine.ip),
        ("mode", .string turn.ready.machine.mode.name),
        ("op", .string turn.step.instruction.opcode.name)]))
  refine hevents.trans ?_
  rw [List.map_map]
  refine List.map_congr_left fun turn _ ↦ ?_
  rw [← hip]
  rfl

end Turn

namespace Machine

/-- A run counts its forks on from the fork count. -/
theorem execute_forks (machine : Machine) (host : Host) (program : Program) (mode : Mode) :
    let forks := (machine.course host program mode).countP Turn.forks
    let final := (machine.execute host program mode).1.machine
    final.forkCount = machine.forkCount + forks ∧
      final.forks = machine.forks ++ List.range' (machine.forkCount + 1) forks := by
  dsimp only
  rw [execute_machine]
  exact ⟨(machine.leads_course host program mode).forkCount_eq,
    (machine.leads_course host program mode).forks_eq⟩

/-- A reachable machine has counted its forks from one. -/
theorem Reachable.forks_eq {admitted : Crystal → Prop} {machine : Machine}
    (h : Reachable admitted machine) : machine.forks = List.range' 1 machine.forkCount := by
  induction h with
  | new config sink => rfl
  | configure config sink _ ih => exact ih
  | execute host program mode _ ih =>
    obtain ⟨hcount, hforks⟩ := execute_forks _ host program mode
    rw [hforks, hcount, ih, Nat.add_comm _ 1, List.range'_append_1]
  | restore crystal _ _ hrestore _ =>
    obtain ⟨_, -, rfl⟩ := restore_eq hrestore
    rfl

/-- The events of a run that a host keeps mirror what the run leaves in the machine. The events of
forks hold the values that are appended to the forks, one for each instruction that asks for a
fork where forks are tracked; the collapses that are told are as many as those in the mansion, and
that ARM was entered is told directly after one; saves are told if they were no faults; and
instructions are narrated in a dry run, and in TRACE as it is after their own fork. A machine that
is reached by runs and by crystals has counted its forks from one. -/
theorem execute_event_stream :
    (∀ (machine : Machine) (host : Host) (program : Program) (mode : Mode),
      machine.sink = .memory →
      let flags := machine.config
      let course := machine.course host program mode
      let final := (machine.execute host program mode).1
      let asksFork (turn : Turn) : Bool := flags.forkTracking && turn.step.forks
      let narrated (turn : Turn) : Bool :=
        flags.dryRun || turn.ready.machine.mode = .trace
      let saved (turn : Turn) : Bool :=
        turn.step.instruction.opcode = .save && turn.dispatch.fault?.isNone
      ∃ events forked added,
        final.host.told = host.told ++ events ∧
        final.machine.forks = machine.forks ++ forked ∧
        final.machine.mansion = machine.mansion ++ added ∧
        (events.filter (·.1 = "fork")).map (·.2.detail? "count") =
          forked.map (fun (count : Nat) ↦ some (.integer count)) ∧
        (events.filter (·.1 = "fork")).map (·.2.detail? "ip") =
          (course.filter asksFork).map (fun turn ↦ some (.integer turn.start.machine.ip)) ∧
        events.countP (·.1 = "resonance_collapse") =
          added.countP (·.kind = .resonanceCollapse) ∧
        (∀ before payload after, events = before ++ ("arm_entered", payload) :: after →
          ∃ earlier finding, before = earlier ++ [("resonance_collapse", finding)]) ∧
        events.countP (fun event ↦ event.1 = "save_skipped" ∨ event.1 = "crystal_saved") =
          course.countP saved ∧
        (events.filter (·.1 = "op_narrative")).map (·.2.detail? "ip") =
          (course.filter narrated).map fun turn ↦ some (.integer turn.start.machine.ip)) ∧
    ∀ (admitted : Crystal → Prop) (machine : Machine), Reachable admitted machine →
      machine.forks = List.range' 1 machine.forkCount := by
  refine ⟨fun machine host program mode hsink ↦ ?_, fun _ _ hreachable ↦ hreachable.forks_eq⟩
  have hcourse := machine.leads_course host program mode
  have hflags {turn : Turn} (hturn : turn ∈ machine.course host program mode) :
      turn.flags = machine.config := hcourse.flags_eq hturn
  have hforks : (machine.course host program mode).filter Turn.forks =
      (machine.course host program mode).filter fun turn ↦
        machine.config.forkTracking && turn.step.forks :=
    List.filter_congr fun turn hturn ↦ by rw [Turn.forks, hflags hturn]
  have hnarrates : (machine.course host program mode).filter Turn.narrates =
      (machine.course host program mode).filter fun turn ↦
        machine.config.dryRun || turn.ready.machine.mode = .trace :=
    List.filter_congr fun turn hturn ↦ by rw [Turn.narrates, hflags hturn, Bool.or_comm]
  refine ⟨_, _, _, told_execute hsink host program mode,
    (machine.execute_forks host program mode).2, machine.execute_mansion host program mode, ?_, ?_,
    ?_, ?_, ?_, ?_⟩
  · have hcounts : ((machine.course host program mode).filter Turn.forks).map
          (fun turn ↦ turn.start.machine.forkCount + 1) =
        List.range' (machine.forkCount + 1)
          ((machine.course host program mode).countP Turn.forks) := hcourse.forkCounts_eq
    rw [List.filter_flatMap]
    simp only [Turn.filter_tells_fork]
    rw [Turn.flatMap_forking, ← hcounts, List.map_map, List.map_map]
    rfl
  · rw [List.filter_flatMap]
    simp only [Turn.filter_tells_fork]
    rw [Turn.flatMap_forking, List.map_map, hforks]
    rfl
  · rw [countP_flatMap_of_ite Turn.countP_collapses, Turn.countP_added]
  · exact Announced.flatMap fun turn _ ↦ turn.announced_tells
  · exact countP_flatMap_of_ite Turn.countP_saves _
  · rw [List.filter_flatMap]
    simp only [Turn.filter_tells_narrative]
    rw [Turn.flatMap_narration, hnarrates]

/-- A dry run of four instructions at depth 1, with ten lessons learned before. The third leaves an
incoherent mesh, which arms the machine; the fourth is a save that forks. -/
theorem event_stream_of_forking_save :
    let machine :=
      { Machine.new { Config.default with forkTracking := true, dryRun := true } .memory with
        spiralDepth := 1
        mansion := List.replicate 10 (.of .exception .zero "") }
    let host : Host := ⟨.empty, [], 0⟩
    let program : Program := ⟨[⟨.init true, false⟩, ⟨.bound .a 0.0 0.0, false⟩,
      ⟨.mesh (some "void") (some ["origin"]), false⟩, ⟨.save none, true⟩]⟩
    let final := (machine.execute host program .execute).1
    machine.sink = .memory ∧ final.machine.forks = [1] ∧
      ∃ events, final.host.told = host.told ++ events ∧
        (events.filter (·.1 = "fork")).map (·.2.detail? "count") = [some (.integer 1)] ∧
        events.countP (·.1 = "resonance_collapse") = 2 ∧
        events.countP (fun event ↦ event.1 = "save_skipped" ∨ event.1 = "crystal_saved") = 1 ∧
        (events.filter (·.1 = "op_narrative")).map (·.2.detail? "ip") =
          [some (.integer 0), some (.integer 1), some (.integer 2), some (.integer 3)] := by
  intro machine host program
  have hasked : (machine.course host program .execute).countP Turn.forks = 1 := by decide +kernel
  have hlearned : (runSteps machine.config program.steps (machine.started program .execute) host
      0).machine.mansion.countP (·.kind = .resonanceCollapse) = 2 := by decide +kernel
  have hsaved : (machine.course host program .execute).countP (fun turn ↦
      turn.step.instruction.opcode = .save && turn.dispatch.fault?.isNone) = 1 := by decide +kernel
  have hplaces : ((machine.course host program .execute).filter fun turn ↦
      machine.config.dryRun || turn.ready.machine.mode = .trace).map (·.start.machine.ip) =
        [0, 1, 2, 3] := by decide +kernel
  rw [← execute_machine] at hlearned
  have hforked := (machine.execute_forks host program .execute).2
  obtain ⟨events, forked, added, htold, hforks, hmansion, hcounts, -, hcollapses, -, hsaves,
    hnarrated⟩ := execute_event_stream.1 machine host program .execute rfl
  generalize machine.execute host program .execute = run at *
  have hfork : run.1.machine.forks = [1] := by
    rw [hforked, hasked]
    rfl
  have hcount : forked = [1] := by
    have hnone : machine.forks = [] := rfl
    rw [hfork, hnone, List.nil_append] at hforks
    exact hforks.symm
  have hadded : added.countP (·.kind = .resonanceCollapse) = 2 := by
    have hearlier : machine.mansion.countP (·.kind = .resonanceCollapse) = 0 := by decide
    rwa [hmansion, List.countP_append, hearlier, Nat.zero_add] at hlearned
  refine ⟨rfl, hfork, events, htold, ?_, hcollapses.trans hadded, hsaves.trans hsaved, ?_⟩
  · rw [hcounts, hcount]
    rfl
  · have hplaced (turns : List Turn) :
        turns.map (fun turn ↦ some (Json.integer turn.start.machine.ip)) =
          (turns.map (·.start.machine.ip)).map fun (place : Nat) ↦ some (Json.integer place) := by
      rw [List.map_map]
      rfl
    rw [hnarrated, hplaced, hplaces]
    rfl

end Machine

end SpiralMachine
