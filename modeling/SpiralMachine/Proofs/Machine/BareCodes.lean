import SpiralMachine.Proofs.Core.Defaults
import SpiralMachine.Proofs.Machine.AuditSchedule
import SpiralMachine.Proofs.Machine.Budget
import SpiralMachine.Proofs.Machine.Finite
import SpiralMachine.Proofs.Machine.Indifference
import SpiralMachine.Proofs.Machine.SavePoint
import SpiralMachine.Proofs.Machine.Telling
import SpiralMachine.Proofs.Program.Constructors

/-!
# Runs of bare codes

What becomes of a list of codes can be read off the list, which `runCodes_closed_form` does. Codes
are refused at the first that is no opcode's (`Program.ofCodes_of_unknown`). The nodes that opcodes
without arguments create add up to a number that the opcodes determine, and the budget is exhausted
exactly if it is smaller (`runSteps_bareSteps`). An empty mesh is reported by the opcodes that need
a node and come before the first that creates one (`filter_failures`). Since nothing is told or
written in such a run but at its end (`Leads.host_eq`), its success depends on the last write alone.

The count and the reports are proved by induction on the opcodes, for a machine in any state: what
is there of nodes when a step begins decides both, and one step says what is there after it
(`perform_default`).
-/

set_option autoImplicit false

namespace SpiralMachine

/-- Whether a failure reports an empty mesh. -/
def Failure.reportsEmptyMesh (failure : Failure) : Bool :=
  Opcode.all.any fun op ↦ failure.error = (Fault.emptyMesh op).message

theorem Failure.reportsEmptyMesh_iff {failure : Failure} :
    failure.reportsEmptyMesh ↔ ∃ op, failure.error = (Fault.emptyMesh op).message := by
  have hall (op : Opcode) : op ∈ Opcode.all := by cases op <;> decide
  simp [reportsEmptyMesh, hall]

/-- The failures of opcodes without arguments, the first at a place, that begin with an empty mesh:
those that need a node, before the first that creates one. -/
def Opcode.starved (ops : List Opcode) (place : Nat) : List Failure :=
  (((ops.takeWhile (· ∉ founding)).zipIdx place).filter (·.1 ∈ needing)).map fun (op, ip) ↦
    { op := op.name, ip, error := (Fault.emptyMesh op).message }

theorem Opcode.starved_cons (op : Opcode) (rest : List Opcode) (place : Nat) :
    starved (op :: rest) place =
      if op ∈ founding then []
      else
        (if op ∈ needing then [⟨op.name, place, (Fault.emptyMesh op).message⟩] else []) ++
          starved rest (place + 1) := by
  unfold starved
  by_cases hfounds : op ∈ founding
  · rw [if_pos hfounds, List.takeWhile_cons_of_neg (by simpa using hfounds)]
    rfl
  · rw [if_neg hfounds, List.takeWhile_cons_of_pos (by simpa using hfounds), List.zipIdx_cons]
    by_cases hneeds : op ∈ needing
    · rw [if_pos hneeds, List.filter_cons_of_pos (by simpa using hneeds)]
      rfl
    · rw [if_neg hneeds, List.filter_cons_of_neg (by simpa using hneeds)]
      rfl

/-- The steps of opcodes without arguments. -/
def bareSteps (ops : List Opcode) : List Step := (Program.ofInstructions (ops.map .default)).steps

theorem bareSteps_cons (op : Opcode) (rest : List Opcode) :
    bareSteps (op :: rest) = ⟨.default op, false⟩ :: bareSteps rest :=
  rfl

theorem map_opcode_bareSteps (ops : List Opcode) :
    (bareSteps ops).map (·.instruction.opcode) = ops := by
  induction ops with
  | nil => rfl
  | cons op rest ih => rw [bareSteps_cons, List.map_cons, ih, Instruction.opcode_default]

/-! ### What is told and written -/

theorem Host.tell_none (host : Host) (events : List (String × Json)) :
    host.tell .none events = host := by
  induction events with
  | nil => rfl
  | cons event rest ih => exact ih

namespace Turn

variable {turn : Turn} {flags : Config} {start final : Machine.Effect} {turns : List Turn}

/-- Without a sink and outside of EXECUTE a turn does nothing to its host. -/
theorem stop_host_eq (hsink : turn.start.machine.sink = .none)
    (hmode : turn.start.machine.mode ≠ .execute) : turn.stop.host = turn.start.host := by
  have hready : turn.ready.machine.mode ≠ .execute := by
    rw [ready_mode]
    split
    · exact nofun
    · exact hmode
  have hwritten (host : Host) (instruction : Instruction) :
      turn.ready.machine.written host turn.flags instruction = host := by
    unfold Machine.written
    split
    · exact if_neg fun hattempts ↦ hready hattempts.1
    · rfl
  rw [stop_host, done_host, ready_host, hsink, hwritten, Host.tell_none, Host.tell_none,
    Host.tell_none]

/-- Nor do turns in a row. -/
theorem Leads.host_eq (h : Leads flags start turns final) (hsink : start.machine.sink = .none)
    (hmode : start.machine.mode ≠ .execute) : final.host = start.host := by
  induction h with
  | nil => rfl
  | cons turn _ _ ih =>
    have hfork : Mode.execute ≠ .fork := nofun
    have harm : Mode.execute ≠ .arm := nofun
    refine (ih (turn.stop_sink.trans hsink) fun hstop ↦ ?_).trans (stop_host_eq hsink hmode)
    exact hmode ((turn.stop_mode_eq_iff hfork harm).mp hstop).1

end Turn

/-- Only a fault is recovered from. -/
theorem Change.eq_fault_of_outcome {change : Change} {budget : Nat} {fault : Fault}
    (h : change.outcome budget = .recoverable fault) : change = .fault fault := by
  cases change with
  | fault cause =>
    cases h
    rfl
  | applied core => cases h
  | full core => cases h

namespace Machine

/-! ### Nodes -/

/-- A step without arguments ends the run exactly if there is no room for the node that it creates;
otherwise the mesh has so many nodes more. -/
theorem perform_default (machine : Machine) (host : Host) (flags : Config) (op : Opcode) :
    let demanded := Opcode.demand (machine.mesh.contains (Core.cycleId 0)) [op]
    let dispatch := machine.dispatched host flags ⟨.default op, false⟩
    let next := (machine.perform host flags ⟨.default op, false⟩).1.machine
    ((∃ error, dispatch.fatal? = some error) ↔
        demanded ≠ 0 ∧ flags.maxMeshNodes < machine.mesh.size + demanded) ∧
      (dispatch.fatal? = none →
        next.mesh.size = machine.mesh.size + demanded ∧
          next.mesh.contains (Core.cycleId 0) =
            (machine.mesh.contains (Core.cycleId 0) || op = .cycle) ∧
          (next.mesh.ids = [] ↔ machine.mesh.ids = [] ∧ op ∉ Opcode.founding)) := by
  obtain ⟨hfull, hids⟩ := dispatched_budget machine host flags ⟨.default op, false⟩
  obtain ⟨hexhausts, hlength, hcycle⟩ := machine.toCore.present_default op
  obtain ⟨_, _, _, _, -, hperform⟩ := perform_machine machine host flags ⟨.default op, false⟩
  dsimp only at *
  rw [dispatched_before, Core.ground_default] at hfull hids
  rw [hexhausts] at hfull hids
  have hfatal : (∃ error,
      (machine.dispatched host flags ⟨.default op, false⟩).fatal? = some error) ↔ _ :=
    (exists_congr fun error ↦ Dispatch.fatal?_eq_some_iff).trans hfull
  refine ⟨hfatal, fun hnone ↦ ?_⟩
  have hroom := mt hfatal.mpr (by simp [hnone])
  rw [hperform]
  dsimp only
  refine ⟨?_, ?_, ?_⟩
  · rw [← Mesh.length_ids, hids hroom, hlength]
  · rw [Mesh.contains, hids hroom, Bool.eq_iff_iff, decide_eq_true_iff, hcycle, Bool.or_eq_true,
      Mesh.contains_iff, decide_eq_true_iff]
  · rw [hids hroom]
    exact machine.toCore.present_default_eq_nil_iff op

/-- A step without arguments that ends the run finds the mesh full, and leaves it so. -/
theorem eq_of_fatal_default {machine : Machine} {host : Host} {flags : Config} {op : Opcode}
    {error : RunError} (hsize : machine.mesh.size ≤ flags.maxMeshNodes)
    (h : (machine.dispatched host flags ⟨.default op, false⟩).fatal? = some error) :
    error = .capacityExceeded flags.maxMeshNodes flags.maxMeshNodes := by
  obtain ⟨hfatal, -⟩ := machine.perform_default host flags op
  obtain ⟨-, hfull⟩ := hfatal.mp ⟨error, h⟩
  have hone := Opcode.demand_singleton_le (machine.mesh.contains (Core.cycleId 0)) op
  have hafter := (dispatched_after machine host flags ⟨.default op, false⟩).1
  have hle : (machine.dispatched host flags ⟨.default op, false⟩).after.mesh.size ≤
      flags.maxMeshNodes := by
    rw [hafter]
    exact (Core.apply_size_le ..).trans (max_le hsize le_rfl)
  have hge : machine.mesh.size ≤
      (machine.dispatched host flags ⟨.default op, false⟩).after.mesh.size := by
    rw [hafter, ← Mesh.length_ids, ← Mesh.length_ids]
    exact (Core.apply_grows _ _ _ (Instruction.default_ne_init op)).ids.length_le
  rw [dispatched_fatal h]
  congr 1
  -- one node more is too many, so none has room that is not there already
  omega

/-- Steps without arguments come to their end if there is room for all the nodes that they create,
and leave a mesh with these. Otherwise they fill it and exhaust the budget. -/
theorem runSteps_bareSteps (flags : Config) (ops : List Opcode) (machine : Machine)
    (hsize : machine.mesh.size ≤ flags.maxMeshNodes) (host : Host) (faults : Nat) :
    let total := machine.mesh.size + Opcode.demand (machine.mesh.contains (Core.cycleId 0)) ops
    let run := runSteps flags (bareSteps ops) machine host faults
    (total ≤ flags.maxMeshNodes → run.failure = none ∧ run.machine.mesh.size = total) ∧
      (flags.maxMeshNodes < total →
        run.failure = some (.capacityExceeded flags.maxMeshNodes flags.maxMeshNodes)) := by
  induction ops generalizing machine host faults with
  | nil =>
    have hnone : Opcode.demand (machine.mesh.contains (Core.cycleId 0)) [] = 0 := by
      simp [Opcode.demand]
    dsimp only
    rw [hnone]
    exact ⟨fun _ ↦ ⟨rfl, rfl⟩, fun hlt ↦ absurd hsize (Nat.not_le.mpr hlt)⟩
  | cons op rest ih =>
    obtain ⟨hfatal, hnext⟩ := machine.perform_default host flags op
    dsimp only at hfatal hnext ⊢
    rw [bareSteps_cons, runSteps_cons_eq, Opcode.demand_cons, ← Nat.add_assoc]
    cases herror : (machine.dispatched host flags ⟨.default op, false⟩).fatal? with
    | some error =>
      obtain ⟨-, hfull⟩ := hfatal.mp ⟨error, herror⟩
      exact ⟨fun hroom ↦ absurd hfull (Nat.not_lt.mpr ((Nat.le_add_right ..).trans hroom)),
        fun _ ↦ congrArg some (eq_of_fatal_default hsize herror)⟩
    | none =>
      obtain ⟨hsize', hcycled, -⟩ := hnext herror
      have hroom := mt hfatal.mpr (by simp [herror])
      dsimp only
      rw [← hsize', ← hcycled]
      exact ih _ (by omega) _ _

/-! ### Faults of an empty mesh -/

/-- Only the files can keep a save from taking place. -/
theorem saveOpcode_ne_emptyMesh (machine : Machine) (host : Host) (flags : Config)
    (path : Option String) (op : Opcode) :
    (machine.saveOpcode host flags path).2 ≠ .recoverable (.emptyMesh op) := by
  unfold saveOpcode
  dsimp only
  split
  · exact nofun
  · split <;> exact nofun

/-- In a step without arguments an empty mesh is a fault exactly if the opcode needs a node. -/
theorem fault?_default (machine : Machine) (host : Host) (flags : Config) (op : Opcode) :
    let dispatch := machine.dispatched host flags ⟨.default op, false⟩
    (machine.mesh.ids = [] → op ∈ Opcode.needing → dispatch.fault? = some (.emptyMesh op)) ∧
      ∀ other, dispatch.fault? = some (.emptyMesh other) →
        machine.mesh.ids = [] ∧ op ∈ Opcode.needing := by
  dsimp only
  by_cases hsave : op = .save
  · subst hsave
    refine ⟨fun _ hneeds ↦ absurd hneeds (by decide), fun other hfault ↦ ?_⟩
    have houtcome : (machine.dispatched host flags ⟨.default .save, false⟩).outcome =
        ((machine.prepare host flags ⟨.default .save, false⟩).machine.saveOpcode
          (machine.prepare host flags ⟨.default .save, false⟩).host flags none).2 := rfl
    have hempty := Dispatch.fault?_eq_some_iff.mp hfault
    exact (saveOpcode_ne_emptyMesh _ _ _ _ _ (houtcome.symm.trans hempty)).elim
  · have hother (path : Option String) : Instruction.default op ≠ .save path := fun heq ↦
      hsave ((Instruction.opcode_default op).symm.trans (congrArg Instruction.opcode heq))
    have houtcome := dispatched_outcome machine host flags
      (show ∀ path, (⟨.default op, false⟩ : Step).instruction ≠ .save path from hother)
    refine ⟨fun hids hneeds ↦ ?_, fun other hfault ↦ ?_⟩
    · rw [Dispatch.fault?_eq_some_iff, houtcome, Core.apply_default_of_empty hids hneeds]
      rfl
    · rw [Dispatch.fault?_eq_some_iff, houtcome] at hfault
      exact Core.apply_default_emptyMesh (Change.eq_fault_of_outcome hfault)

/-- What a step without arguments notes of an empty mesh. -/
theorem filter_failure?_default (machine : Machine) (host : Host) (flags : Config) (op : Opcode)
    (place : Nat) :
    ((machine.dispatched host flags ⟨.default op, false⟩).failure? place).toList.filter
        Failure.reportsEmptyMesh =
      if machine.mesh.ids = [] ∧ op ∈ Opcode.needing then
        [⟨op.name, place, (Fault.emptyMesh op).message⟩]
      else [] := by
  obtain ⟨hempty, honly⟩ := machine.fault?_default host flags op
  have hopcode : (machine.dispatched host flags ⟨.default op, false⟩).instruction.opcode = op :=
    Instruction.opcode_default op
  unfold Dispatch.failure?
  rw [hopcode]
  split
  · rename_i h
    rw [hempty h.1 h.2]
    exact List.filter_cons_of_pos (Failure.reportsEmptyMesh_iff.mpr ⟨op, rfl⟩)
  · rename_i h
    cases hfault : (machine.dispatched host flags ⟨.default op, false⟩).fault? with
    | none => rfl
    | some fault =>
      refine List.filter_cons_of_neg fun hreports ↦ h ?_
      obtain ⟨reported, hmessage⟩ := Failure.reportsEmptyMesh_iff.mp hreports
      obtain ⟨other, rfl⟩ := Fault.eq_emptyMesh_of_message hmessage
      exact honly other hfault

/-- The failures of a run are that of its first dispatch and those of the others, each with its
place. -/
theorem filter_failures_cons (noted : Failure → Bool) (dispatch : Dispatch)
    (later : List Dispatch) (place : Nat) :
    (((dispatch :: later).zipIdx place).filterMap
        fun (dispatch, ip) ↦ dispatch.failure? ip).filter noted =
      (dispatch.failure? place).toList.filter noted ++
        ((later.zipIdx (place + 1)).filterMap
          fun (dispatch, ip) ↦ dispatch.failure? ip).filter noted := by
  rw [List.zipIdx_cons, List.filterMap_cons, ← List.filter_append]
  dsimp only
  cases dispatch.failure? place <;> rfl

/-- The reports of an empty mesh in a run without arguments: one for each opcode that needs a node,
as long as none creates one. -/
theorem filter_failures (flags : Config) (ops : List Opcode) (machine : Machine) (host : Host)
    (place : Nat) :
    (((dispatches flags (bareSteps ops) machine host).zipIdx place).filterMap
        fun (dispatch, ip) ↦ dispatch.failure? ip).filter Failure.reportsEmptyMesh =
      if machine.mesh.ids = [] then Opcode.starved ops place else [] := by
  induction ops generalizing machine host place with
  | nil => exact (ite_self _).symm
  | cons op rest ih =>
    obtain ⟨hfatal, hnext⟩ := machine.perform_default host flags op
    have hnoted := machine.filter_failure?_default host flags op place
    rw [bareSteps_cons, dispatches_cons, Opcode.starved_cons]
    by_cases hfounds : op ∈ Opcode.founding
    · -- from here on there is a node, or the run has ended
      have hneeds : op ∉ Opcode.needing := Opcode.notMem_needing_of_founding hfounds
      rw [if_pos hfounds, ite_self]
      cases herror : (machine.dispatched host flags ⟨.default op, false⟩).fatal? with
      | some error =>
        rw [filter_failures_cons, hnoted, if_neg fun h ↦ hneeds h.2]
        rfl
      | none =>
        obtain ⟨-, -, hids⟩ := hnext herror
        rw [filter_failures_cons, hnoted, if_neg fun h ↦ hneeds h.2, ih,
          if_neg fun h ↦ (hids.mp h).2 hfounds]
        rfl
    · have hgoes : (machine.dispatched host flags ⟨.default op, false⟩).fatal? = none :=
        Option.eq_none_iff_forall_ne_some.mpr fun error herror ↦
          hfounds (Opcode.founding_of_demand (hfatal.mp ⟨error, herror⟩).1)
      obtain ⟨-, -, hids⟩ := hnext hgoes
      rw [hgoes, if_neg hfounds]
      dsimp only
      rw [filter_failures_cons, hnoted, ih]
      by_cases hempty : machine.mesh.ids = []
      · rw [if_pos hempty, if_pos (hids.mpr ⟨hempty, hfounds⟩)]
        simp only [hempty, true_and]
      · rw [if_neg hempty, if_neg fun h ↦ hempty h.1, if_neg fun h ↦ hempty (hids.mp h).1]
        rfl

/-! ### The run of a list of codes -/

/-- A run without arguments that comes to its end has logged its opcodes. -/
theorem log_bareSteps {flags : Config} {ops : List Opcode} {machine : Machine} {host : Host}
    {faults : Nat} (h : (runSteps flags (bareSteps ops) machine host faults).failure = none) :
    (runSteps flags (bareSteps ops) machine host faults).machine.log.map (·.op) =
      machine.log.map (·.op) ++ ops.map Opcode.name := by
  obtain ⟨_, _, _, _, _, -, -, hmachine⟩ :=
    runSteps_machine flags (bareSteps ops) machine host faults
  obtain ⟨-, -, -, hinstructions, hlength⟩ :=
    runSteps_outcome flags (bareSteps ops) machine host faults
  rw [hlength h, ← List.length_map, List.take_length] at hinstructions
  have hops : (dispatches flags (bareSteps ops) machine host).map (·.instruction.opcode) = ops := by
    have hopcodes := congrArg (List.map Instruction.opcode) hinstructions
    rw [List.map_map, List.map_map] at hopcodes
    exact hopcodes.trans (map_opcode_bareSteps ops)
  rw [hmachine]
  dsimp only
  rw [List.map_append, List.map_map]
  refine congrArg (machine.log.map (·.op) ++ ·) ?_
  calc (dispatches flags (bareSteps ops) machine host).map ((·.op) ∘ Dispatch.entry)
      = ((dispatches flags (bareSteps ops) machine host).map (·.instruction.opcode)).map
          Opcode.name := by rw [List.map_map]; rfl
    _ = ops.map Opcode.name := by rw [hops]

/-- A machine without nodes, log and failures runs opcodes without arguments to their end if there
is room for their nodes, and has these then, with the opcodes in its log and the opcodes that found
no node among its failures. -/
theorem runSteps_bareSteps_of_blank (flags : Config) (ops : List Opcode) (machine : Machine)
    (hmesh : machine.mesh = .empty) (hlog : machine.log = [])
    (hfailures : machine.failures = .empty) (hip : machine.ip = 0) (host : Host) (faults : Nat) :
    let nodes := ops.count .mesh + ops.count .forge + if .cycle ∈ ops then 1 else 0
    let run := runSteps flags (bareSteps ops) machine host faults
    (flags.maxMeshNodes < nodes →
      run.failure = some (.capacityExceeded flags.maxMeshNodes flags.maxMeshNodes)) ∧
    (nodes ≤ flags.maxMeshNodes → run.failure = none ∧ run.machine.mesh.size = nodes ∧
      run.machine.log.map (·.op) = ops.map Opcode.name ∧
      run.machine.failures.failures.filter Failure.reportsEmptyMesh = Opcode.starved ops 0) := by
  obtain ⟨hroom, hfull⟩ := runSteps_bareSteps flags ops machine (by rw [hmesh]; exact Nat.zero_le _)
    host faults
  have htotal : machine.mesh.size + Opcode.demand (machine.mesh.contains (Core.cycleId 0)) ops =
      ops.count .mesh + ops.count .forge + if .cycle ∈ ops then 1 else 0 := by
    rw [hmesh]
    simp [Opcode.demand, Mesh.size, Mesh.contains, Mesh.ids, Mesh.empty]
  rw [htotal] at hroom hfull
  refine ⟨hfull, fun hle ↦ ?_⟩
  obtain ⟨hnone, hsize⟩ := hroom hle
  refine ⟨hnone, hsize, ?_, ?_⟩
  · rw [log_bareSteps hnone, hlog]
    rfl
  · obtain ⟨_, _, _, _, _, -, -, hmachine⟩ :=
      runSteps_machine flags (bareSteps ops) machine host faults
    rw [hmachine]
    dsimp only
    rw [hfailures, hip]
    exact (filter_failures flags ops machine host 0).trans (if_pos (congrArg Mesh.ids hmesh))

/-- A fresh machine runs codes of opcodes without telling or writing anything until the run comes to
its end, and then writes the crystal. -/
theorem runCodes_map_code (config : Config) (host : Host) (ops : List Opcode) :
    let program := Program.ofInstructions (ops.map .default)
    let progress := runSteps config (bareSteps ops)
      ((new config .none).started program .simulate) host 0
    let done := runCodes config host (ops.map Opcode.code)
    done.1.machine = progress.machine ∧
      (∀ error, progress.failure = some error → done.2 = .error error) ∧
      (progress.failure = none →
        let written := host.files.store config.crystalPath fun _ ↦ progress.machine.crystal.text
        done.1.host = { host with files := written.1 } ∧
        (written.2 = none → ∃ summary, done.2 = .ok summary ∧ summary.instructions = ops.length) ∧
        ∀ cause, written.2 = some cause → done.2 = .error (.persistence (.io cause))) := by
  intro program progress done
  have hdone : done = (new config .none).execute host program .simulate := by
    change runCodes _ _ _ = _
    unfold runCodes
    rw [Program.ofCodes_map_code]
    rfl
  have hmachine : done.1.machine = progress.machine := by
    rw [hdone]
    exact execute_machine ..
  have hhost : progress.host = host := by
    refine Turn.Leads.host_eq ((new config .none).leads_course host program .simulate) rfl ?_
    exact fun hmode ↦ nomatch (startMode_eq_execute_iff config .simulate).mp hmode
  have htext : progress.machine.toText = .ok progress.machine.crystal.text := by
    have hreached : Reachable (fun crystal ↦ ∃ text, Crystal.ofText? text = some crystal)
        (new config .none) := .new config .none
    rw [← hmachine, hdone]
    exact (toText_of_finite (hreached.execute host program .simulate).settled.toFinite).2
  have hrun : runSteps (new config .none).config program.steps
      ((new config .none).started program .simulate) host 0 = progress := rfl
  have hpath : (new config .none).config.crystalPath = config.crystalPath := rfl
  rw [hmachine, hdone, execute_eq]
  dsimp only
  rw [hrun, hpath, hhost, save_of_toText htext]
  refine ⟨rfl, fun error hfailure ↦ ?_, fun hfailure ↦ ?_⟩
  · rw [hfailure]
  · rw [hfailure]
    cases hwritten : (host.files.store config.crystalPath fun _ ↦
        progress.machine.crystal.text).2 with
    | none =>
      have hlength : program.size = ops.length :=
        (List.length_map ..).trans (List.length_map ..)
      exact ⟨rfl, fun _ ↦ ⟨_, rfl, hlength⟩, nofun⟩
    | some cause =>
      refine ⟨rfl, nofun, fun other hother ↦ ?_⟩
      cases hother
      rfl

/-- What becomes of a list of codes on a fresh machine can be read off the list. It is refused at
the first code that is no opcode's, and nothing is run. Otherwise each MESH and each FORGE demands a
node, and all CYCLEs together demand one. If the budget has no room for these, it is reported as
exhausted, with as many nodes present as it allows. If it has room, the mesh comes to have these
nodes and no others, the log spells the codes, and an empty mesh is reported for each FLOW, SEEK,
MASK and CRYST before the first MESH, CYCLE or FORGE, and for nothing else. Nothing is written but
the crystal, at the end, and the run succeeds exactly if the files take it. -/
theorem runCodes_closed_form (config : Config) (host : Host) (codes : List Nat) :
    let done := runCodes config host codes
    (∀ before code after, codes = before ++ code :: after → (∀ earlier ∈ before, earlier ≤ 0xF) →
      0xF < code →
        done = (⟨new config .none, host⟩, .error (.unknownOpcode (.unknownCode code)))) ∧
    ((∀ code ∈ codes, code ≤ 0xF) → ∃ ops : List Opcode, codes = ops.map Opcode.code ∧
      let nodes := ops.count .mesh + ops.count .forge + if .cycle ∈ ops then 1 else 0
      (config.maxMeshNodes < nodes →
        done.2 = .error (.capacityExceeded config.maxMeshNodes config.maxMeshNodes)) ∧
      (nodes ≤ config.maxMeshNodes →
        let final := done.1.machine
        let written := host.files.store config.crystalPath fun _ ↦ final.crystal.text
        final.mesh.size = nodes ∧
        final.log.map (·.op) = ops.map Opcode.name ∧ final.log.length = codes.length ∧
        final.failures.failures.filter Failure.reportsEmptyMesh =
          ((ops.takeWhile (· ∉ Opcode.founding)).zipIdx.filter (·.1 ∈ Opcode.needing)).map
            (fun (op, ip) ↦ ⟨op.name, ip, (Fault.emptyMesh op).message⟩) ∧
        done.1.host = { host with files := written.1 } ∧
        (written.2 = none →
          ∃ summary, done.2 = .ok summary ∧ summary.instructions = codes.length) ∧
        ∀ cause, written.2 = some cause → done.2 = .error (.persistence (.io cause)))) := by
  dsimp only
  refine ⟨fun before code after hcodes hbefore hcode ↦ ?_, fun hcodes ↦ ?_⟩
  · rw [hcodes, runCodes, Program.ofCodes_of_unknown hbefore hcode]
  · obtain ⟨ops, rfl⟩ := Opcode.exists_eq_map_code hcodes
    refine ⟨ops, rfl, ?_⟩
    obtain ⟨hmachine, hfailed, hcompleted⟩ := runCodes_map_code config host ops
    obtain ⟨hfull, hroom⟩ := runSteps_bareSteps_of_blank config ops ((new config .none).started
      (.ofInstructions (ops.map .default)) .simulate) rfl rfl rfl rfl host 0
    refine ⟨fun hlt ↦ hfailed _ (hfull hlt), fun hle ↦ ?_⟩
    obtain ⟨hnone, hsize, hlog, hfailures⟩ := hroom hle
    obtain ⟨hhost, hwritten, hunwritten⟩ := hcompleted hnone
    rw [hmachine, List.length_map]
    refine ⟨hsize, hlog, ?_, hfailures, hhost, hwritten, hunwritten⟩
    rw [← List.length_map, hlog, List.length_map]

/-- Six codes that demand three nodes, of which the first finds none. They run with room for three
nodes, and exhaust a budget of two; with a seventh that is no opcode's they are refused. -/
theorem closed_form_of_exact_budget :
    let budget (nodes : Nat) : Config :=
      { Config.default with maxMeshNodes := nodes, crystalPath := "c" }
    let host : Host := ⟨.empty, [], 0⟩
    let codes := [0x5, 0x1, 0x8, 0x9, 0x8, 0x6]
    let done := runCodes (budget 3) host codes
    (∃ summary, done.2 = .ok summary ∧ summary.instructions = 6) ∧
      done.1.machine.mesh.size = 3 ∧
      done.1.machine.log.map (·.op) = ["FLOW", "MESH", "CYCLE", "FORGE", "CYCLE", "SEEK"] ∧
      done.1.machine.failures.failures.filter Failure.reportsEmptyMesh =
        [⟨"FLOW", 0, "FLOW requires a non-empty mesh"⟩] ∧
      (runCodes (budget 2) host codes).2 = .error (.capacityExceeded 2 2) ∧
      runCodes (budget 2) host (codes ++ [0x10]) =
        (⟨new (budget 2) .none, host⟩, .error (.unknownOpcode (.unknownCode 0x10))) := by
  intro budget host codes done
  have hinjective : Function.Injective Opcode.code := fun op other heq ↦
    Except.ok.inj ((Opcode.ofCode_code op).symm.trans (heq ▸ Opcode.ofCode_code other))
  have hcodes : codes = [Opcode.flow, .mesh, .cycle, .forge, .cycle, .seek].map Opcode.code := rfl
  have hstore (text : String) : (FileTree.empty.store "c" fun _ ↦ text).2 = none := by
    have hspells : FileTree.Spells "c" [] [] "c" := ⟨rfl, by decide, nofun, nofun, by decide⟩
    exact hspells.store_empty (by decide) _
  obtain ⟨hrefused, -⟩ := runCodes_closed_form (budget 2) host (codes ++ [0x10])
  obtain ⟨-, hshort⟩ := runCodes_closed_form (budget 2) host codes
  obtain ⟨-, hexact⟩ := runCodes_closed_form (budget 3) host codes
  obtain ⟨ops, hops, hfull, -⟩ := hshort (by decide)
  obtain ⟨others, hothers, -, hroom⟩ := hexact (by decide)
  obtain rfl := List.map_injective_iff.mpr hinjective (hops.symm.trans hcodes)
  obtain rfl := List.map_injective_iff.mpr hinjective (hothers.symm.trans hcodes)
  dsimp only at hfull hroom
  subst done
  generalize runCodes (budget 3) host codes = ran at *
  obtain ⟨hsize, hlog, -, hfailures, -, hwritten, -⟩ := hroom (by decide)
  exact ⟨hwritten (hstore _), hsize, hlog, hfailures.trans (by decide), hfull (by decide),
    hrefused codes 0x10 [] rfl (by decide) (by decide)⟩

end Machine

end SpiralMachine
