import SpiralMachine.Proofs.Machine.DurableWrites

/-!
# What a run tells

A machine tells its sink of a fork and of an instruction that is about to run, of numbers that are
close and of saves, and of what audits find. What a turn tells is settled by what it does
(`Turn.tells`): whatever the sink, the host is handed that and nothing else (`ready_host`,
`done_host`, `stop_host`). A host that keeps events in memory has kept, after turns in a
row, what each of them tells, in order and without gaps (`Leads.told_eq`). The save at the end of a
run tells nothing (`execute_told`).
-/

set_option autoImplicit false

namespace SpiralMachine

/-- Where each item has one part that counts or none, these parts are as many as the items that have
one. -/
theorem countP_flatMap_of_ite {α β : Type} {parts : α → List β} {counts : β → Bool}
    {counted : α → Bool}
    (h : ∀ item, (parts item).countP counts = if counted item then 1 else 0) (items : List α) :
    (items.flatMap parts).countP counts = items.countP counted := by
  induction items with
  | nil => rfl
  | cons item rest ih =>
    rw [List.flatMap_cons, List.countP_append, h, ih, List.countP_cons, Nat.add_comm]

/-- No event is of a type that is not among those of the events. -/
theorem filter_eq_nil_of_types {events : List (String × Json)} {types : List String}
    (h : ∀ event ∈ events, event.1 ∈ types) (wanted : String → Bool)
    (hwanted : ∀ eventType ∈ types, ¬wanted eventType) : events.filter (wanted ·.1) = [] :=
  List.filter_eq_nil_iff.mpr fun event hevent ↦ hwanted event.1 (h event hevent)

namespace Host

/-- Hands events to a sink, given by their types and payloads. -/
def tell (host : Host) (sink : EventSink) (events : List (String × Json)) : Host :=
  events.foldl
    (fun host event ↦
      host.record { eventType := event.1, payload := event.2, timestampMs := host.clockMs } sink)
    host

theorem tell_append (host : Host) (sink : EventSink) (first second : List (String × Json)) :
    host.tell sink (first ++ second) = (host.tell sink first).tell sink second :=
  List.foldl_append

/-- The types and payloads of the events that a host has kept in memory. -/
def told (host : Host) : List (String × Json) :=
  host.events.map fun event ↦ (event.eventType, event.payload)

theorem told_tell (host : Host) (events : List (String × Json)) :
    (host.tell .memory events).told = host.told ++ events := by
  induction events generalizing host with
  | nil => exact (List.append_nil _).symm
  | cons event rest ih =>
    have hfirst : (host.tell .memory [event]).told = host.told ++ [event] := List.map_append
    rw [← List.singleton_append, tell_append, ih, hfirst, List.append_assoc]

end Host

namespace Machine

instance (machine : Machine) (flags : Config) : Decidable (machine.attemptsSave flags) :=
  inferInstanceAs (Decidable (_ ∧ _))

/-- Writing the crystal tells nothing. -/
theorem save_told (machine : Machine) (host : Host) (path : String) :
    (machine.save host path).1.told = host.told := by
  unfold save
  split
  · rfl
  · split <;> rfl

/-! ### What a machine tells -/

/-- What is told before the instruction of a step: that it forks. -/
def forking (machine : Machine) (flags : Config) (step : Step) : List (String × Json) :=
  if flags.forkTracking && step.forks then
    [("fork", .object [("count", .integer (machine.forkCount + 1 : Nat)),
      ("ip", .integer machine.ip)])]
  else []

/-- What is told of an instruction that is about to run. -/
def narration (machine : Machine) (flags : Config) (op : Opcode) : List (String × Json) :=
  if machine.mode.narrates || flags.dryRun then
    [("op_narrative", .object [("description", .string op.description),
      ("glyph", .string op.glyph), ("ip", .integer machine.ip),
      ("mode", .string machine.mode.name), ("op", .string op.name)])]
  else []

/-- What is told of an instruction with this outcome. A save tells that it was carried out or
skipped, and nothing if it was a fault. -/
def report (machine : Machine) (flags : Config) (outcome : Outcome) :
    Instruction → List (String × Json)
  | .sync here remote =>
    let score := closeness here remote
    let threshold := flags.resonanceThreshold
    if score ≥ threshold then
      [("resonance_threshold", .object [("ip", .integer machine.ip), ("local", scoreJson here),
        ("remote", scoreJson remote), ("score", scoreJson score),
        ("threshold", scoreJson threshold)])]
    else []
  | .save path =>
    let path := path.getD flags.crystalPath
    if machine.attemptsSave flags then
      match outcome with
      | .applied =>
        [("crystal_saved", .object [("ip", .integer machine.ip), ("path", .string path)])]
      | _ => []
    else
      [("save_skipped", .object [("dry_run", .boolean flags.dryRun), ("ip", .integer machine.ip),
        ("mode", .string machine.mode.name), ("path", .string path)])]
  | _ => []

/-- What is told of what an audit has found before the step at `ip`, when so many lessons were
learned and the machine was armed by it or was not. -/
def verdict (core : Core) (ip : Nat) (found : List Lesson) (lessons : Nat) (arms : Bool) :
    List (String × Json) :=
  if found = [] then []
  else
    ("resonance_collapse", .object [("ip", .integer ip),
      ("resonance", scoreJson core.mesh.resonance),
      ("spiral_depth", .integer core.spiralDepth.toNat)]) ::
    if arms then
      [("arm_entered", .object [("errors", .integer lessons), ("ip", .integer ip),
        ("resonance", scoreJson core.mesh.resonance)])]
    else []

theorem forking_type {machine : Machine} {flags : Config} {step : Step} :
    ∀ event ∈ machine.forking flags step, event.1 = "fork" := by
  unfold forking
  split <;> simp

theorem narration_type {machine : Machine} {flags : Config} {op : Opcode} :
    ∀ event ∈ machine.narration flags op, event.1 = "op_narrative" := by
  unfold narration
  split <;> simp

theorem report_types {machine : Machine} {flags : Config} {outcome : Outcome}
    {instruction : Instruction} : ∀ event ∈ machine.report flags outcome instruction,
      event.1 ∈ ["resonance_threshold", "crystal_saved", "save_skipped"] := by
  unfold report
  split
  · dsimp only
    split <;> simp
  · dsimp only
    split
    · split <;> simp
    · simp
  · simp

theorem verdict_types {core : Core} {ip : Nat} {found : List Lesson} {lessons : Nat}
    {arms : Bool} : ∀ event ∈ verdict core ip found lessons arms,
      event.1 ∈ ["resonance_collapse", "arm_entered"] := by
  unfold verdict
  split
  · simp
  · split <;> simp

/-- What an instruction makes of the files: a save that is attempted writes them. -/
def written (machine : Machine) (host : Host) (flags : Config) : Instruction → Host
  | .save path =>
    if machine.attemptsSave flags then (machine.save host (path.getD flags.crystalPath)).1
    else host
  | _ => host

/-! ### And nothing else -/

theorem prepare_host (machine : Machine) (host : Host) (flags : Config) (step : Step) :
    let ready := (machine.prepare host flags step).machine
    (machine.prepare host flags step).host = host.tell machine.sink
      (machine.forking flags step ++ ready.narration flags step.instruction.opcode) := by
  have hnarrate (ready : Machine) (host : Host) :
      (ready.narrate host flags step.instruction.opcode).host =
        host.tell ready.sink (ready.narration flags step.instruction.opcode) := by
    unfold narrate narration
    split <;> rfl
  dsimp only
  unfold prepare forking
  dsimp only
  rw [narrate_machine, hnarrate, Host.tell_append]
  split <;> rfl

theorem written_told (machine : Machine) (host : Host) (flags : Config)
    (instruction : Instruction) : (machine.written host flags instruction).told = host.told := by
  unfold written
  split
  · split
    · exact save_told ..
    · rfl
  · rfl

theorem dispatch_host (machine : Machine) (host : Host) (flags : Config)
    (instruction : Instruction) :
    (machine.dispatch host flags instruction).1.host =
      (machine.written host flags instruction).tell machine.sink
        (machine.report flags (machine.dispatch host flags instruction).2 instruction) := by
  have hquiet (hsync : ∀ here remote, instruction ≠ .sync here remote)
      (hsave : ∀ path, instruction ≠ .save path) :
      (machine.dispatch host flags instruction).1.host = host := by
    unfold dispatch
    split
    · rfl
    · rfl
    · split
      · exact absurd rfl (hsync _ _)
      · exact absurd rfl (hsave _)
      · rfl
  cases instruction with
  | sync here remote =>
    change machine.reportSync host flags here remote = _
    unfold reportSync report
    dsimp only
    split <;> rfl
  | save path =>
    by_cases hattempts : machine.attemptsSave flags
    · unfold report written
      rw [dispatch_save_of_attempts hattempts, attemptSave]
      dsimp only
      rw [if_pos hattempts, if_pos hattempts]
      split <;> rename_i hsave <;> rw [hsave] <;> rfl
    · rw [dispatch_save_of_not_attempts hattempts, skipSave, report, written,
        if_neg hattempts, if_neg hattempts]
      rfl
  | _ => exact hquiet (by simp) (by simp)

theorem advance_host (machine : Machine) (host : Host) :
    let found := machine.toCore.findings (machine.ip + 1)
    let lessons := (machine.mansion ++ found).length
    (machine.advance host).host = host.tell machine.sink
      (verdict machine.toCore (machine.ip + 1) found lessons
        (armLimit < lessons && machine.mode ≠ .arm)) := by
  dsimp only
  rw [advance_eq, verdict]
  by_cases hfound : machine.toCore.findings (machine.ip + 1) = []
  · rw [if_pos hfound, if_pos hfound]
    rfl
  · rw [if_neg hfound, if_neg hfound, arm]
    simp only [Bool.and_eq_true, decide_eq_true_eq]
    split <;> rfl

end Machine

namespace Turn

variable (turn : Turn)

/-- The types and payloads of the events of a turn, in order. -/
def tells : List (String × Json) :=
  turn.start.machine.forking turn.flags turn.step ++
  turn.ready.machine.narration turn.flags turn.step.instruction.opcode ++
  turn.ready.machine.report turn.flags turn.done.2 turn.step.instruction ++
  Machine.verdict turn.dispatch.after.toCore (turn.start.machine.ip + 1) turn.findings
    turn.stop.machine.mansion.length turn.arms

/-- The events of a turn that are of wanted types: all of what it tells of a fork and of its
instruction or nothing, and some of what it reports and of what its audit finds. -/
theorem filter_tells (wanted : String → Bool) :
    turn.tells.filter (wanted ·.1) =
      (if wanted "fork" then turn.start.machine.forking turn.flags turn.step else []) ++
      (if wanted "op_narrative" then
        turn.ready.machine.narration turn.flags turn.step.instruction.opcode else []) ++
      (turn.ready.machine.report turn.flags turn.done.2 turn.step.instruction).filter
        (wanted ·.1) ++
      (Machine.verdict turn.dispatch.after.toCore (turn.start.machine.ip + 1) turn.findings
        turn.stop.machine.mansion.length turn.arms).filter (wanted ·.1) := by
  have hsame {events : List (String × Json)} {eventType : String}
      (h : ∀ event ∈ events, event.1 = eventType) :
      events.filter (wanted ·.1) = if wanted eventType then events else [] := by
    split <;> rename_i hwanted
    · exact List.filter_eq_self.mpr fun event hevent ↦ (h event hevent).symm ▸ hwanted
    · exact List.filter_eq_nil_iff.mpr fun event hevent ↦ (h event hevent).symm ▸ hwanted
  rw [tells, List.filter_append, List.filter_append, List.filter_append,
    hsame Machine.forking_type, hsame Machine.narration_type]

theorem ready_host : turn.ready.host = turn.start.host.tell turn.start.machine.sink
    (turn.start.machine.forking turn.flags turn.step ++
      turn.ready.machine.narration turn.flags turn.step.instruction.opcode) :=
  Machine.prepare_host ..

theorem ready_sink : turn.ready.machine.sink = turn.start.machine.sink := by
  rw [ready_machine]
  split <;> rfl

theorem done_host : turn.done.1.host =
    (turn.ready.machine.written turn.ready.host turn.flags turn.step.instruction).tell
      turn.start.machine.sink
      (turn.ready.machine.report turn.flags turn.done.2 turn.step.instruction) := by
  rw [← ready_sink]
  exact Machine.dispatch_host ..

theorem noted_sink : turn.noted.sink = turn.start.machine.sink := by
  obtain ⟨_, _, _, hnoted⟩ := turn.noted_machine
  rw [hnoted, ← ready_sink]

theorem stop_sink : turn.stop.machine.sink = turn.start.machine.sink := by
  obtain ⟨_, _, _, _, _, hstop⟩ := turn.stop_machine
  rw [hstop]

theorem stop_host : turn.stop.host = turn.done.1.host.tell turn.start.machine.sink
    (Machine.verdict turn.dispatch.after.toCore (turn.start.machine.ip + 1) turn.findings
      turn.stop.machine.mansion.length turn.arms) := by
  have hstop := turn.stop_eq
  by_cases hfatal : turn.dispatch.fatal? = none
  · rw [if_pos hfatal] at hstop
    have hmansion : turn.stop.machine.mansion = turn.noted.mansion ++ turn.findings :=
      turn.stop_mansion_moved
    have hadvance := Machine.advance_host turn.noted turn.done.1.host
    dsimp only at hadvance
    rw [noted_findings turn hfatal, ← hmansion, noted_ip, noted_sink, noted_core,
      ← hstop] at hadvance
    rw [hadvance]
    by_cases hfound : turn.findings = []
    · rw [Machine.verdict, Machine.verdict, if_pos hfound, if_pos hfound]
    · have harms : turn.arms =
          (armLimit < turn.stop.machine.mansion.length && turn.noted.mode ≠ .arm) := by
        rw [Bool.eq_iff_iff, arms_iff, noted_mode, stop_mode]
        by_cases hlearned : armLimit < turn.stop.machine.mansion.length <;>
          simp [hfound, hlearned]
      rw [harms]
  · have hfound : turn.findings = [] := if_neg hfatal
    rw [hstop, if_neg hfatal, Machine.verdict, if_pos hfound]
    rfl

variable {turn}

/-- A host that keeps events in memory keeps what a turn tells. -/
theorem told_eq (hsink : turn.start.machine.sink = .memory) :
    turn.stop.host.told = turn.start.host.told ++ turn.tells := by
  rw [stop_host, done_host, hsink, Host.told_tell, Host.told_tell, Machine.written_told,
    ready_host, hsink, Host.told_tell, tells]
  simp only [List.append_assoc]

/-- A host that keeps events in memory keeps what turns in a row tell. -/
theorem Leads.told_eq {flags : Config} {start final : Machine.Effect} {turns : List Turn}
    (h : Leads flags start turns final) (hsink : start.machine.sink = .memory) :
    final.host.told = start.host.told ++ turns.flatMap tells := by
  induction h with
  | nil => exact (List.append_nil _).symm
  | cons turn _ _ ih =>
    rw [ih (turn.stop_sink.trans hsink), Turn.told_eq hsink, List.flatMap_cons,
      List.append_assoc]

end Turn

namespace Machine

/-- The save at the end of a run tells nothing. -/
theorem execute_told (machine : Machine) (host : Host) (program : Program) (mode : Mode) :
    (machine.execute host program mode).1.host.told =
      (runSteps machine.config program.steps (machine.started program mode) host 0).host.told := by
  rw [execute_eq]
  dsimp only
  split
  · rfl
  · exact save_told ..
  · exact save_told ..

/-- What a run tells a host that keeps events in memory: what each of its turns tells. -/
theorem told_execute {machine : Machine} (hsink : machine.sink = .memory) (host : Host)
    (program : Program) (mode : Mode) :
    (machine.execute host program mode).1.host.told =
      host.told ++ (machine.course host program mode).flatMap Turn.tells := by
  rw [execute_told]
  exact (machine.leads_course host program mode).told_eq hsink

end Machine

end SpiralMachine
