import SpiralMachine.Proofs.Machine.Audit

/-!
# The turns of a run

A turn has three parts: what is done before the instruction (`ready`), the instruction
(`dispatch`), and what is done after it (`stop`).

Turns follow on each other: `Leads` says that each begins where the one before it stopped, and
`leads_turns` that the turns of a run lead from its beginning to its end. What a run does is proved
from it by induction, from what one turn does. The mode changes before the instruction by a fork
(`ready_mode`) and after it by an audit that arms the machine (`stop_mode`), and nowhere else.
-/

set_option autoImplicit false

namespace SpiralMachine

namespace Turn

/-- What a turn makes of its start before its instruction. -/
def ready (turn : Turn) : Machine.Effect :=
  turn.start.machine.prepare turn.start.host turn.flags turn.step

/-- What the instruction of a turn makes of it. -/
def done (turn : Turn) : Machine.Effect × Outcome :=
  turn.ready.machine.dispatch turn.ready.host turn.flags turn.step.instruction

/-- Whether a turn forks. -/
def forks (turn : Turn) : Bool := turn.flags.forkTracking && turn.step.forks

/-- What the audit at the end of a turn finds, if there is one. -/
def findings (turn : Turn) : List Lesson :=
  if turn.dispatch.fatal? = none then
    turn.dispatch.after.toCore.findings (turn.start.machine.ip + 1)
  else []

/-- Whether a turn enters ARM after its instruction. -/
def arms (turn : Turn) : Bool :=
  turn.dispatch.after.mode ≠ .arm && turn.stop.machine.mode = .arm

variable (turn : Turn)

/-! ### One turn -/

theorem ready_machine : turn.ready.machine =
    if turn.forks then
      { turn.start.machine with
        mode := .fork
        forkCount := turn.start.machine.forkCount + 1
        forks := turn.start.machine.forks ++ [turn.start.machine.forkCount + 1] }
    else turn.start.machine :=
  Machine.prepare_eq ..

/-- Before its instruction a turn enters FORK, or leaves the mode alone. -/
theorem ready_mode :
    turn.ready.machine.mode = if turn.forks then .fork else turn.start.machine.mode := by
  rw [ready_machine]
  split <;> rfl

/-- An instruction changes the core, and nothing else. -/
theorem after_machine : ∃ core, turn.dispatch.after = { turn.ready.machine with toCore := core } :=
  Machine.dispatch_machine ..

theorem after_mode : turn.dispatch.after.mode = turn.ready.machine.mode := by
  obtain ⟨core, hcore⟩ := turn.after_machine
  rw [hcore]

/-- The machine of a turn when its instruction is noted in the log, and a fault of it among the
failures and the lessons. -/
def noted : Machine :=
  let logged :=
    { turn.dispatch.after with log := turn.dispatch.after.log ++ [turn.dispatch.entry] }
  match turn.done.2 with
  | .recoverable fault => logged.recordFault turn.step.instruction.opcode fault
  | _ => logged

/-- Between the instruction and the end of a turn stands the core that the instruction made, with
the log, the failures and the mansion of the turn so far; nothing else has changed. -/
theorem noted_machine : ∃ log failures mansion, turn.noted =
    { turn.ready.machine with toCore := turn.dispatch.after.toCore, log, failures, mansion } := by
  obtain ⟨core, hafter⟩ := turn.after_machine
  unfold noted
  rw [hafter]
  dsimp only
  split <;> exact ⟨_, _, _, rfl⟩

/-- A turn moves on from its noted instruction, unless that ends the run. -/
theorem stop_eq : turn.stop =
    if turn.dispatch.fatal? = none then turn.noted.advance turn.done.1.host
    else ⟨{ turn.noted with ip := turn.noted.ip + 1 }, turn.done.1.host⟩ := by
  unfold stop Machine.perform Machine.measured
  dsimp only
  split <;> rename_i houtcome
  all_goals
    change turn.dispatch.outcome = _ at houtcome
    have hdone : turn.done.2 = _ := houtcome
    unfold noted Dispatch.fatal?
    rw [houtcome, hdone]
    rfl

/-- The machine of a turn at the next place, where an audit may look at it. -/
def moved : Machine := { turn.noted with ip := turn.noted.ip + 1 }

/-- Whether a turn ends with an audit. -/
def audits : Bool := turn.dispatch.fatal? = none && turn.moved.auditIsDue

/-- A turn ends at the next place, with an audit or without one. -/
theorem stop_eq_audit : turn.stop =
    if turn.audits then turn.moved.audit turn.done.1.host else ⟨turn.moved, turn.done.1.host⟩ := by
  rw [stop_eq, audits]
  by_cases hfatal : turn.dispatch.fatal? = none
  · rw [if_pos hfatal, hfatal]
    rfl
  · rw [if_neg hfatal, decide_eq_false hfatal]
    rfl

/-- A turn leaves the core that its instruction made, and an entry in the log, at the next place. -/
theorem stop_machine : ∃ mode forkCount forks failures mansion,
    turn.stop.machine =
      { turn.start.machine with
        toCore := turn.dispatch.after.toCore
        log := turn.start.machine.log ++ [turn.dispatch.entry]
        ip := turn.start.machine.ip + 1
        mode, forkCount, forks, failures, mansion } := by
  obtain ⟨mode, forkCount, forks, _, -, hstop⟩ := Machine.perform_machine turn.start.machine
    turn.start.host turn.flags turn.step
  exact ⟨mode, forkCount, forks, _, _, hstop⟩

theorem stop_core : turn.stop.machine.toCore = turn.dispatch.after.toCore := by
  obtain ⟨_, _, _, _, _, hstop⟩ := turn.stop_machine
  rw [hstop]

theorem stop_ip : turn.stop.machine.ip = turn.start.machine.ip + 1 := by
  obtain ⟨_, _, _, _, _, hstop⟩ := turn.stop_machine
  rw [hstop]

theorem stop_log :
    turn.stop.machine.log = turn.start.machine.log ++ [turn.dispatch.entry] := by
  obtain ⟨_, _, _, _, _, hstop⟩ := turn.stop_machine
  rw [hstop]

/-- What a turn adds to the mansion: the lesson of its instruction, and then what its audit
finds. -/
theorem stop_mansion : turn.stop.machine.mansion =
    turn.start.machine.mansion ++ (turn.dispatch.lesson?.toList ++ turn.findings) := by
  refine (Machine.perform_mansion ..).trans ?_
  unfold findings
  change _ ++ (turn.dispatch.lesson?.toList ++ if turn.dispatch.fatal?.isSome then _ else _) = _
  cases turn.dispatch.fatal? <;> rfl

theorem noted_core : turn.noted.toCore = turn.dispatch.after.toCore := by
  obtain ⟨_, _, _, hnoted⟩ := turn.noted_machine
  rw [hnoted]

theorem noted_mode : turn.noted.mode = turn.ready.machine.mode := by
  obtain ⟨_, _, _, hnoted⟩ := turn.noted_machine
  rw [hnoted]

theorem noted_ip : turn.noted.ip = turn.start.machine.ip := by
  obtain ⟨_, _, _, hnoted⟩ := turn.noted_machine
  rw [hnoted, ready_machine]
  dsimp only
  split <;> rfl

/-- The audit of a turn looks at what the instruction left. -/
theorem noted_findings (h : turn.dispatch.fatal? = none) :
    turn.noted.toCore.findings (turn.noted.ip + 1) = turn.findings := by
  rw [noted_ip, noted_core, findings, if_pos h]

/-- An audit adds what it finds to the mansion. -/
theorem stop_mansion_moved :
    turn.stop.machine.mansion = turn.moved.mansion ++ turn.findings := by
  rw [stop_eq]
  by_cases hfatal : turn.dispatch.fatal? = none
  · rw [if_pos hfatal, Machine.advance_mansion, noted_findings turn hfatal]
    rfl
  · rw [if_neg hfatal, findings, if_neg hfatal, List.append_nil]
    rfl

/-- After its instruction a turn enters ARM, if its audit finds something and enough was learned,
or leaves the mode alone. -/
theorem stop_mode : turn.stop.machine.mode =
    if turn.findings ≠ [] ∧ armLimit < turn.stop.machine.mansion.length then .arm
    else turn.ready.machine.mode := by
  rw [stop_eq]
  by_cases hfatal : turn.dispatch.fatal? = none
  · rw [if_pos hfatal, Machine.advance_mode, noted_findings turn hfatal, noted_mode]
  · have hfound : turn.findings = [] := if_neg hfatal
    rw [if_neg hfatal, if_neg fun h ↦ h.1 hfound, ← noted_mode]

/-- After its instruction a turn does not fork. -/
theorem stop_forking : turn.stop.machine.forkCount = turn.ready.machine.forkCount ∧
    turn.stop.machine.forks = turn.ready.machine.forks := by
  obtain ⟨_, _, _, hnoted⟩ := turn.noted_machine
  rw [stop_eq, hnoted]
  split
  · obtain ⟨_, _, -, hadvance⟩ := Machine.advance_machine
      { turn.ready.machine with
        toCore := turn.dispatch.after.toCore, log := _, failures := _, mansion := _ }
      turn.done.1.host
    rw [hadvance]
    exact ⟨rfl, rfl⟩
  · exact ⟨rfl, rfl⟩

/-- Turns that lead from one effect to another, each beginning where the one before it stopped. -/
inductive Leads (flags : Config) : Machine.Effect → List Turn → Machine.Effect → Prop where
  | nil (start : Machine.Effect) : Leads flags start [] start
  | cons (turn : Turn) {rest : List Turn} {final : Machine.Effect} :
    turn.flags = flags → Leads flags turn.stop rest final →
      Leads flags turn.start (turn :: rest) final

/-- The turns up to one of them lead to where it begins. -/
theorem Leads.take {flags : Config} {start final : Machine.Effect} {turns : List Turn}
    (h : Leads flags start turns final) {index : Nat} {turn : Turn}
    (hturn : turns[index]? = some turn) : Leads flags start (turns.take index) turn.start := by
  induction h generalizing index with
  | nil => cases hturn
  | cons first hflags hrest ih =>
    cases index with
    | zero =>
      cases hturn
      exact .nil _
    | succ index => exact .cons first hflags (ih hturn)

/-- All turns of a run are taken under its flags. -/
theorem Leads.flags_eq {flags : Config} {start final : Machine.Effect} {turns : List Turn}
    (h : Leads flags start turns final) {turn : Turn} (hturn : turn ∈ turns) :
    turn.flags = flags := by
  induction h with
  | nil => cases hturn
  | cons first hflags _ ih =>
    rcases List.mem_cons.mp hturn with rfl | hturn
    · exact hflags
    · exact ih hturn

/-- Turns move on by one place each. -/
theorem Leads.ip_eq {flags : Config} {start final : Machine.Effect} {turns : List Turn}
    (h : Leads flags start turns final) :
    final.machine.ip = start.machine.ip + turns.length := by
  induction h with
  | nil => rfl
  | cons turn _ _ ih => rw [ih, stop_ip, List.length_cons, Nat.add_right_comm, Nat.add_assoc]

/-- Turns add an entry to the log each. -/
theorem Leads.log_eq {flags : Config} {start final : Machine.Effect} {turns : List Turn}
    (h : Leads flags start turns final) :
    final.machine.log = start.machine.log ++ turns.map (·.dispatch.entry) := by
  induction h with
  | nil => exact (List.append_nil _).symm
  | cons turn _ _ ih => rw [ih, stop_log, List.append_assoc, List.map_cons, List.singleton_append]

/-- All that turns add to the mansion. -/
theorem Leads.mansion_eq {flags : Config} {start final : Machine.Effect} {turns : List Turn}
    (h : Leads flags start turns final) :
    final.machine.mansion = start.machine.mansion ++
      turns.flatMap fun turn ↦ turn.dispatch.lesson?.toList ++ turn.findings := by
  induction h with
  | nil => exact (List.append_nil _).symm
  | cons turn _ _ ih => rw [ih, stop_mansion, List.flatMap_cons, List.append_assoc]

end Turn

namespace Machine

/-! ### A run -/

/-- A run goes on from where its first turn stops, unless that ends it. -/
theorem runSteps_cons_turn (flags : Config) (step : Step) (rest : List Step) (start : Effect)
    (faults : Nat) :
    let turn : Turn := { flags, start, step }
    (runSteps flags (step :: rest) start.machine start.host faults).toEffect =
      if turn.dispatch.fatal? = none then
        (runSteps flags rest turn.stop.machine turn.stop.host
          (faults + turn.dispatch.fault?.toList.length)).toEffect
      else turn.stop := by
  dsimp only
  rw [runSteps_cons_eq]
  unfold Turn.dispatch Turn.stop
  dsimp only
  cases (start.machine.dispatched start.host flags step).fatal? <;> rfl

/-- The turns of a run lead from its beginning to its end. -/
theorem leads_turns (flags : Config) (steps : List Step) (start : Effect) (faults : Nat) :
    Turn.Leads flags start (turns flags steps start)
      (runSteps flags steps start.machine start.host faults).toEffect := by
  induction steps generalizing start faults with
  | nil => exact .nil start
  | cons step rest ih =>
    let turn : Turn := { flags, start, step }
    have hrun := runSteps_cons_turn flags step rest start faults
    rw [turns]
    dsimp only at hrun ⊢
    by_cases hfatal : turn.dispatch.fatal? = none
    · rw [hrun, if_pos hfatal, if_pos hfatal]
      exact .cons turn rfl (ih turn.stop _)
    · rw [hrun, if_neg hfatal, if_neg hfatal]
      exact .cons turn rfl (.nil turn.stop)

/-- The turns of a run take its steps in order, as far as they go. -/
theorem map_step_turns (flags : Config) (steps : List Step) (start : Effect) :
    (turns flags steps start).map Turn.step = steps.take (turns flags steps start).length := by
  induction steps generalizing start with
  | nil => rfl
  | cons step rest ih =>
    rw [turns]
    split
    · rw [List.map_cons, List.length_cons, List.take_succ_cons, ih]
    · rfl

/-- The turns of the run of a program. -/
def course (machine : Machine) (host : Host) (program : Program) (mode : Mode) : List Turn :=
  turns machine.config program.steps ⟨machine.started program mode, host⟩

/-- The turns of a program lead from its start to where its steps end. -/
theorem leads_course (machine : Machine) (host : Host) (program : Program) (mode : Mode) :
    Turn.Leads machine.config ⟨machine.started program mode, host⟩
      (machine.course host program mode)
      (runSteps machine.config program.steps (machine.started program mode) host 0).toEffect :=
  leads_turns machine.config program.steps ⟨machine.started program mode, host⟩ 0

/-- The turns of a program are at the places of its steps. -/
theorem course_ip {machine : Machine} {host : Host} {program : Program} {mode : Mode}
    {index : Nat} {turn : Turn} (hturn : (machine.course host program mode)[index]? = some turn) :
    turn.start.machine.ip = index := by
  have hlt : index < (machine.course host program mode).length :=
    (List.getElem?_eq_some_iff.mp hturn).1
  have htake := ((machine.leads_course host program mode).take hturn).ip_eq
  rw [List.length_take, Nat.min_eq_left (Nat.le_of_lt hlt)] at htake
  exact htake.trans (Nat.zero_add index)

/-- The turns of a program take its steps. -/
theorem step_mem_of_mem_course {machine : Machine} {host : Host} {program : Program} {mode : Mode}
    {turn : Turn} (hturn : turn ∈ machine.course host program mode) :
    turn.step ∈ program.steps := by
  have htaken : turn.step ∈ (machine.course host program mode).map Turn.step :=
    List.mem_map_of_mem hturn
  rw [course, map_step_turns] at htaken
  exact List.mem_of_mem_take htaken

/-- The turns of a run that do not end it come before all others. -/
theorem filter_prefix_turns (flags : Config) (steps : List Step) (start : Effect) :
    (turns flags steps start).filter (·.dispatch.fatal? = none) <+: turns flags steps start := by
  induction steps generalizing start with
  | nil => exact List.prefix_rfl
  | cons step rest ih =>
    rw [turns]
    split
    · rename_i hfatal
      rw [List.filter_cons_of_pos (by simpa using hfatal)]
      exact (List.prefix_cons_inj _).mpr (ih _)
    · rename_i hfatal
      rw [List.filter_cons_of_neg (by simpa using hfatal)]
      exact List.nil_prefix

end Machine

end SpiralMachine
