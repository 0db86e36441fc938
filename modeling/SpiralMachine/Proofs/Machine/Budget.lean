import SpiralMachine.Proofs.Core.Budget
import SpiralMachine.Proofs.Machine.Agreement
import SpiralMachine.Proofs.Machine.Audit

/-!
# The node budget of a run

`execute_node_budget` says what the node budget does to a run. The mesh never has more nodes than
the budget allows, or than it had to begin with. An instruction is fatal exactly if it exhausts
the budget (`dispatch_fatal_iff`), and then it is the last: the run reports the budget and the
size of the mesh it leaves, notes nothing of the instruction but its entry in the log, and writes
no crystal (`runSteps_of_fatal`). It is the only error of its kind.
-/

set_option autoImplicit false

namespace SpiralMachine

theorem Dispatch.fatal?_eq_some_iff {dispatch : Dispatch} {error : RunError} :
    dispatch.fatal? = some error ↔ dispatch.outcome = .fatal error := by
  unfold fatal?
  split <;> simp_all

namespace Machine

/-- An instruction is fatal exactly if it exhausts the node budget. -/
theorem dispatch_fatal_iff {machine : Machine} {host : Host} {flags : Config}
    {instruction : Instruction} :
    (∃ error, (machine.dispatch host flags instruction).2 = .fatal error) ↔
      Core.Exhausts flags.maxMeshNodes (machine.toCore.ground instruction).ids
        (machine.toCore.wanted instruction) := by
  rw [← Core.apply_full_iff machine.mansion.getLast?]
  unfold dispatch
  split <;> rename_i hchange <;> rw [hchange]
  · exact iff_of_false (fun ⟨_, h⟩ ↦ nomatch h) (fun ⟨_, h⟩ ↦ nomatch h)
  · exact iff_of_true ⟨_, rfl⟩ ⟨_, rfl⟩
  · refine iff_of_false (fun ⟨error, h⟩ ↦ ?_) (fun ⟨_, h⟩ ↦ nomatch h)
    split at h
    · cases h
    · rename_i path _
      rcases machine.saveOpcode_outcome host flags path with houtcome | ⟨fault, houtcome⟩
      · exact absurd (houtcome.symm.trans h) nofun
      · exact absurd (houtcome.symm.trans h) nofun
    · cases h

/-- A fatal instruction tells and writes nothing. -/
theorem dispatch_host_of_fatal {machine : Machine} {host : Host} {flags : Config}
    {instruction : Instruction} {error : RunError}
    (h : (machine.dispatch host flags instruction).2 = .fatal error) :
    (machine.dispatch host flags instruction).1.host = host := by
  unfold dispatch at h ⊢
  split at h
  · rfl
  · rfl
  · split at h
    · cases h
    · rename_i path _
      rcases machine.saveOpcode_outcome host flags path with houtcome | ⟨fault, houtcome⟩
      · exact absurd (houtcome.symm.trans h) nofun
      · exact absurd (houtcome.symm.trans h) nofun
    · rfl

/-- A dispatch ends the run exactly if its instruction exhausts the node budget; otherwise it
leaves a node for each id that it needs one for. -/
theorem dispatched_budget (machine : Machine) (host : Host) (flags : Config) (step : Step) :
    let dispatch := machine.dispatched host flags step
    let start := (dispatch.before.toCore.ground step.instruction).ids
    let wanted := dispatch.before.toCore.wanted step.instruction
    ((∃ error, dispatch.outcome = .fatal error) ↔
        Core.Exhausts flags.maxMeshNodes start wanted) ∧
      (¬Core.Exhausts flags.maxMeshNodes start wanted →
        dispatch.after.mesh.ids = Core.present start wanted) := by
  refine ⟨dispatch_fatal_iff, fun hroom ↦ ?_⟩
  rw [(dispatched_after machine host flags step).1, dispatched_before] at *
  exact Core.apply_ids hroom

/-- A step that ends the run notes nothing of its instruction but the entry in the log, and does
nothing after it. -/
theorem perform_of_fatal {machine : Machine} {host : Host} {flags : Config} {step : Step}
    {error : RunError} (h : (machine.dispatched host flags step).fatal? = some error) :
    let stopped := (machine.perform host flags step).1
    stopped.machine.failures = machine.failures ∧ stopped.machine.mansion = machine.mansion ∧
      stopped.machine.ip = machine.ip + 1 ∧
      stopped.host = (machine.prepare host flags step).host := by
  have houtcome := Dispatch.fatal?_eq_some_iff.mp h
  have hfault : (machine.dispatched host flags step).fault? = none := by
    unfold Dispatch.fault?
    rw [houtcome]
  obtain ⟨_, _, _, _, -, hperform⟩ := perform_machine machine host flags step
  refine ⟨?_, ?_, ?_, ?_⟩
  · rw [hperform]
    simp [Dispatch.failure?, hfault]
  · rw [perform_mansion]
    simp [Dispatch.lesson?, hfault, h]
  · rw [hperform]
  · change ((machine.prepare host flags step).machine.dispatch
      (machine.prepare host flags step).host flags step.instruction).2 = _ at houtcome
    have hhost := dispatch_host_of_fatal houtcome
    unfold perform measured
    dsimp only
    rw [houtcome]
    exact hhost

/-- The mesh that steps lead to is within the node budget, or no larger than it was. -/
theorem runSteps_size_le (flags : Config) (steps : List Step) (machine : Machine) (host : Host)
    (faults : Nat) :
    (runSteps flags steps machine host faults).machine.mesh.size ≤
      max machine.mesh.size flags.maxMeshNodes := by
  refine runSteps_invariant
    (fun reached ↦ reached.mesh.size ≤ max machine.mesh.size flags.maxMeshNodes) ?_ steps
    (le_max_left _ _) host faults
  intro reached host step hreached
  obtain ⟨_, _, _, _, -, hperform⟩ := perform_machine reached host flags step
  rw [hperform, (dispatched_after reached host flags step).1]
  exact (Core.apply_size_le ..).trans (max_le hreached (le_max_right _ _))

/-- A dispatch that ends the run is the last one. The run leaves what its step leaves, of the
machine which the steps before it lead to. -/
theorem runSteps_of_fatal {flags : Config} {steps : List Step} {machine : Machine} {host : Host}
    {index : Nat} {dispatch : Dispatch} {error : RunError} (faults : Nat)
    (hdispatch : (dispatches flags steps machine host)[index]? = some dispatch)
    (hfatal : dispatch.fatal? = some error) :
    let reached := runSteps flags (steps.take index) machine host faults
    (dispatches flags steps machine host).length = index + 1 ∧
      ∃ step, steps[index]? = some step ∧ reached.failure = none ∧
        dispatch = reached.machine.dispatched reached.host flags step ∧
        runSteps flags steps machine host faults =
          { toEffect := (reached.machine.perform reached.host flags step).1
            faults := reached.faults
            failure := some error } := by
  obtain ⟨-, hearlier, -, -, -⟩ := runSteps_outcome flags steps machine host faults
  obtain ⟨hlt, hget⟩ := List.getElem?_eq_some_iff.mp hdispatch
  have hlast : (dispatches flags steps machine host).length = index + 1 := by
    by_contra hne
    have hmem : dispatch ∈ (dispatches flags steps machine host).dropLast := by
      rw [List.mem_iff_getElem]
      refine ⟨index, ?_, ?_⟩
      · rw [List.length_dropLast]
        omega
      · rw [List.getElem_dropLast]
        exact hget
    rw [hearlier dispatch hmem] at hfatal
    cases hfatal
  rw [dispatches_getElem? flags steps machine host faults] at hdispatch
  obtain ⟨step, hstep, hreached⟩ := Option.bind_eq_some_iff.mp hdispatch
  dsimp only at hreached
  split at hreached
  · rename_i hnone
    obtain rfl := Option.some.inj hreached
    have hfailure := Option.isNone_iff_eq_none.mp hnone
    refine ⟨hlast, step, hstep, hfailure, rfl, ?_⟩
    obtain ⟨hindex, hgetStep⟩ := List.getElem?_eq_some_iff.mp hstep
    have hsplit : steps = steps.take index ++ step :: steps.drop (index + 1) := by
      rw [← hgetStep, ← List.drop_eq_getElem_cons hindex, List.take_append_drop]
    have hrun := runSteps_append flags (steps.take index) (step :: steps.drop (index + 1)) machine
      host faults
    dsimp only at hrun
    rw [← hsplit, hfailure, runSteps_cons_eq] at hrun
    dsimp only at hrun
    rwa [hfatal] at hrun
  · cases hreached

/-- Each dispatch of a run ends it exactly if its instruction exhausts the node budget, and
otherwise leaves a node for each id that it needs one for. -/
theorem budget_of_mem_dispatches {flags : Config} {steps : List Step} {machine : Machine}
    {host : Host} {dispatch : Dispatch} (hmem : dispatch ∈ dispatches flags steps machine host) :
    let start := (dispatch.before.toCore.ground dispatch.instruction).ids
    let wanted := dispatch.before.toCore.wanted dispatch.instruction
    ((∃ error, dispatch.outcome = .fatal error) ↔
        Core.Exhausts flags.maxMeshNodes start wanted) ∧
      (¬Core.Exhausts flags.maxMeshNodes start wanted →
        dispatch.after.mesh.ids = Core.present start wanted) := by
  obtain ⟨step, -, reached, host, rfl⟩ := exists_of_mem_dispatches hmem
  exact dispatched_budget reached host flags step

/-- A run reports an exhausted budget exactly if one of its instructions was fatal, with the
budget and the size of the mesh that it leaves. -/
theorem execute_capacityExceeded_iff_fatal (machine : Machine) (host : Host) (program : Program)
    (mode : Mode) {current max : Nat} :
    let done := machine.execute host program mode
    done.2 = .error (.capacityExceeded current max) ↔
      current = done.1.machine.mesh.size ∧ max = machine.config.maxMeshNodes ∧
        ∃ dispatch ∈ machine.executed host program mode,
          ∃ error, dispatch.outcome = .fatal error := by
  dsimp only
  rw [execute_capacityExceeded_iff, execute_machine]
  constructor
  · intro hfailure
    obtain ⟨-, -, hlast, -, -⟩ := runSteps_outcome machine.config program.steps
      (machine.started program mode) host 0
    obtain ⟨dispatch, hdispatch, hfatal⟩ := Option.bind_eq_some_iff.mp (hlast.symm.trans hfailure)
    injection runSteps_failure hfailure with hcurrent hmax
    exact ⟨hcurrent, hmax, dispatch, List.mem_of_getLast? hdispatch, _,
      Dispatch.fatal?_eq_some_iff.mp hfatal⟩
  · rintro ⟨rfl, rfl, dispatch, hmem, error, herror⟩
    obtain ⟨index, hindex⟩ := List.mem_iff_getElem?.mp hmem
    obtain ⟨-, step, -, -, -, hrun⟩ := runSteps_of_fatal 0 hindex
      (Dispatch.fatal?_eq_some_iff.mpr herror)
    have hfailure := congrArg Progress.failure hrun
    rw [runSteps_failure hfailure] at hfailure
    exact hfailure

/-- A fatal instruction is the last of its run. No fault and no finding is noted of it, and
nothing is told or written after what precedes it. -/
theorem execute_of_fatal {machine : Machine} {host : Host} {program : Program} {mode : Mode}
    {index : Nat} {dispatch : Dispatch} {error : RunError}
    (hdispatch : (machine.executed host program mode)[index]? = some dispatch)
    (hfatal : dispatch.fatal? = some error) :
    let reached := runSteps machine.config (program.steps.take index)
      (machine.started program mode) host 0
    let done := machine.execute host program mode
    (machine.executed host program mode).length = index + 1 ∧ done.1.machine.ip = index + 1 ∧
      done.1.machine.failures = reached.machine.failures ∧
      done.1.machine.mansion = reached.machine.mansion ∧
      ∃ step, program.steps[index]? = some step ∧
        done.1.host = (reached.machine.prepare reached.host machine.config step).host := by
  obtain ⟨hlength, step, hstep, -, heq, hrun⟩ := runSteps_of_fatal 0 hdispatch hfatal
  rw [heq] at hfatal
  obtain ⟨hfailures, hmansion, -, hhost⟩ := perform_of_fatal hfatal
  obtain ⟨_, _, _, _, _, -, -, hmachine⟩ := runSteps_machine machine.config program.steps
    (machine.started program mode) host 0
  refine ⟨hlength, ?_, ?_, ?_, step, hstep, ?_⟩
  · rw [execute_machine, hmachine]
    exact (Nat.zero_add _).trans hlength
  · rw [execute_machine, hrun]
    exact hfailures
  · rw [execute_machine, hrun]
    exact hmansion
  · rw [execute_eq]
    dsimp only
    rw [hrun]
    exact hhost

/-- What the node budget does. An instruction is fatal exactly if it comes to an id that it has to
create, since it is absent, where the mesh has as many nodes as the budget allows; where all ids
it needs have nodes it never is. While a cycle goes from index to index, and after every step
of a run, the mesh is within the budget or no larger than it was when it began. A run reports
an exhausted budget exactly if one of its instructions was fatal, with the budget and with the
size of the mesh that it leaves. The fatal instruction is the last one. No fault and no
finding is noted of it, and nothing is told or written after what precedes it, so that there is no
crystal. -/
theorem execute_node_budget :
    (∀ (machine : Machine) (host : Host) (flags : Config) (instruction : Instruction),
      let start := (machine.toCore.ground instruction).ids
      let wanted := machine.toCore.wanted instruction
      let outcome := (machine.dispatch host flags instruction).2
      ((∃ error, outcome = .fatal error) ↔ ∃ done id rest, wanted = done ++ id :: rest ∧
        id ∉ Core.present start done ∧
        flags.maxMeshNodes ≤ (Core.present start done).length) ∧
      ((∀ id ∈ wanted, id ∈ start) → ∀ error, outcome ≠ .fatal error)) ∧
    (∀ (mesh : Mesh) (budget : Nat) (seed : SpiralVector) (count length index : Nat),
      (Core.cycleNodes budget seed count length index mesh).1.size ≤ max mesh.size budget) ∧
    ∀ (machine : Machine) (host : Host) (program : Program) (mode : Mode),
      let budget := machine.config.maxMeshNodes
      let run := machine.executed host program mode
      let reached (count : Nat) := runSteps machine.config (program.steps.take count)
        (machine.started program mode) host 0
      let done := machine.execute host program mode
      (∀ count, (reached count).machine.mesh.size ≤ max machine.mesh.size budget) ∧
      (∀ dispatch ∈ run,
        let start := (dispatch.before.toCore.ground dispatch.instruction).ids
        let wanted := dispatch.before.toCore.wanted dispatch.instruction
        ((∃ error, dispatch.outcome = .fatal error) ↔ Core.Exhausts budget start wanted) ∧
        (¬Core.Exhausts budget start wanted →
          dispatch.after.mesh.ids = Core.present start wanted)) ∧
      (∀ current max, done.2 = .error (.capacityExceeded current max) ↔
        current = done.1.machine.mesh.size ∧ max = budget ∧
          ∃ dispatch ∈ run, ∃ error, dispatch.outcome = .fatal error) ∧
      ∀ index dispatch error, run[index]? = some dispatch → dispatch.outcome = .fatal error →
        run.length = index + 1 ∧ done.1.machine.ip = index + 1 ∧
        done.1.machine.failures = (reached index).machine.failures ∧
        done.1.machine.mansion = (reached index).machine.mansion ∧
        ∃ step, program.steps[index]? = some step ∧
          done.1.host =
            ((reached index).machine.prepare (reached index).host machine.config step).host := by
  refine ⟨fun machine host flags instruction ↦ ⟨dispatch_fatal_iff, fun hall error herror ↦ ?_⟩,
    fun mesh budget seed count length index ↦ Core.cycleNodes_size_le .., ?_⟩
  · exact Core.not_exhausts_of_subset hall (dispatch_fatal_iff.mp ⟨error, herror⟩)
  intro machine host program mode
  dsimp only
  refine ⟨fun count ↦ runSteps_size_le .., ?_, ?_, ?_⟩
  · exact fun dispatch hmem ↦ budget_of_mem_dispatches hmem
  · exact fun current max ↦ execute_capacityExceeded_iff_fatal machine host program mode
  · intro index dispatch error hindex herror
    exact execute_of_fatal hindex (Dispatch.fatal?_eq_some_iff.mpr herror)

/-- Three nodes are allowed. The origin and one more are there when a cycle of three finds room
for its first node only. -/
theorem node_budget_of_cycle :
    let machine := Machine.new { Config.default with maxMeshNodes := 3 } .memory
    let host : Host := ⟨.empty, [], 0⟩
    let program := Program.ofInstructions [.init true, .mesh none none, .cycle 1 0 3, .phi .a]
    (machine.execute host program .execute).2 = .error (.capacityExceeded 3 3) ∧
      (machine.execute host program .execute).1.machine.ip = 3 ∧
      (machine.execute host program .execute).1.machine.mesh.size ≤ 3 := by
  intro machine host program
  obtain ⟨-, -, hrun⟩ := execute_node_budget
  obtain ⟨hsize, -, hreport, hlast⟩ := hrun machine host program .execute
  have hfatal : ((machine.executed host program .execute)[2]?.bind Dispatch.fatal?).isSome := by
    decide +kernel
  obtain ⟨error, herror⟩ := Option.isSome_iff_exists.mp hfatal
  obtain ⟨dispatch, hdispatch, herror⟩ := Option.bind_eq_some_iff.mp herror
  have herror := Dispatch.fatal?_eq_some_iff.mp herror
  obtain ⟨-, hip, -⟩ := hlast 2 dispatch error hdispatch herror
  have hmesh : (machine.execute host program .execute).1.machine.mesh.size = 3 := by
    rw [execute_machine]
    decide +kernel
  exact ⟨(hreport 3 3).mpr ⟨hmesh.symm, rfl, dispatch, List.mem_of_getElem? hdispatch, error,
    herror⟩, hip, hmesh.le⟩

end Machine

end SpiralMachine
