import SpiralMachine.Proofs.Machine.FaultAccount
import SpiralMachine.Proofs.Machine.NoTrace
import SpiralMachine.Proofs.Mesh.FreshId

/-!
# New nodes

A MESH or a FORGE that names no id never meets a node under the id that is made up for it, and so
never changes a node. If there is room it creates one, after all others (`Machine.Founds`), and if
there is none it leaves everything as it was. MESH steps without arguments, on a mesh that was
empty, hence leave a chain in which every node is connected to the one before (`dispatch_unnamed`).
-/

set_option autoImplicit false

namespace SpiralMachine

/-- A new node is connected to the targets in the order in which they come first. -/
theorem Node.connectAll_new (vector : SpiralVector) (targets : List String) :
    (Node.new vector).connectAll targets =
      { Node.new vector with connections := targets.eraseDups } := by
  induction targets using List.reverseRecOn with
  | nil => rfl
  | append_singleton earlier last ih =>
    rw [connectAll, List.foldl_concat, ← connectAll, ih, connect, List.eraseDups_append]
    by_cases hlast : last ∈ earlier
    · simp [List.removeAll, List.mem_eraseDups, hlast]
    · simp [List.removeAll, List.mem_eraseDups, hlast, List.eraseDups_cons]

namespace Core

/-- Under an id that has none a node is created if there is room. -/
theorem place_of_notMem (core : Core) (budget : ℕ) {id : String} (h : id ∉ core.mesh.ids)
    (vector : SpiralVector) (added initial : List String) :
    core.place budget id vector added initial =
      if core.mesh.size < budget then
        .applied { core with mesh := core.mesh.append id ((Node.new vector).connectAll initial) h }
      else .full core := by
  have hcontains : core.mesh.contains id = false := by simpa [Mesh.contains] using h
  simp [place, admits, hcontains, Mesh.insert, h]

/-! ### Chains -/

/-- A node of a chain, connected to the one before it. -/
def chainNode (vector : SpiralVector) : ℕ → Node
  | 0 => .new vector
  | index + 1 => { Node.new vector with connections := [Mesh.numbered "node" index] }

/-- So many nodes with one vector, each connected to the one before. -/
def chain (vector : SpiralVector) (count : ℕ) : List (String × Node) :=
  (List.range count).map fun index ↦ (Mesh.numbered "node" index, chainNode vector index)

theorem chain_succ (vector : SpiralVector) (count : ℕ) :
    chain vector (count + 1) =
      chain vector count ++ [(Mesh.numbered "node" count, chainNode vector count)] := by
  simp [chain, List.range_succ]

/-- The node after a chain is connected to the last of it. -/
theorem chainNode_eq {mesh : Mesh} {vector : SpiralVector} {count : ℕ}
    (h : mesh.entries = chain vector count) :
    (Node.new vector).connectAll mesh.lastId?.toList = chainNode vector count := by
  rw [Node.connectAll_new, Mesh.lastId?, Mesh.ids, h]
  cases count with
  | zero => rfl
  | succ count => simp [chain_succ, chainNode, List.eraseDups_cons]

/-- A chain grows by one node, if there is room. -/
theorem link_chain (core : Core) {vector : SpiralVector} {count budget : ℕ}
    (h : core.mesh.entries = chain vector count) (hvector : core.registers.a = vector)
    (hroom : count < budget) :
    ∃ grown, grown.entries = chain vector (count + 1) ∧
      core.link budget none none = .applied { core with mesh := grown } := by
  have hids : core.mesh.ids = (List.range count).map (Mesh.numbered "node") := by
    simp [Mesh.ids, h, chain]
  have hsize : core.mesh.size = count := by simp [Mesh.size, h, chain]
  have hnew : Mesh.numbered "node" core.mesh.size ∉ core.mesh.ids := by
    have hinjective : Function.Injective (Mesh.numbered "node") := Mesh.numbered_injective "node"
    simp [hids, hsize, List.mem_map_of_injective hinjective]
  refine ⟨core.mesh.append _ (chainNode vector count) hnew, ?_, ?_⟩
  · change core.mesh.entries ++ [(Mesh.numbered "node" core.mesh.size, _)] = _
    rw [h, hsize, chain_succ]
  · change core.place budget (core.mesh.nextId "node") core.registers.a [] _ = _
    rw [Mesh.nextId_of_notMem hnew, core.place_of_notMem budget hnew, if_pos (hsize ▸ hroom),
      hvector]
    exact congrArg (fun node ↦ Change.applied { core with mesh := core.mesh.append _ node hnew })
      (chainNode_eq h)

end Core

namespace Machine

/-- An instruction that creates a node if there is room for it, after all others and under an id
that is made up of a stem, and that does nothing else. -/
structure Founds (machine : Machine) (host : Host) (flags : Config) (instruction : Instruction)
    (stem : String) (node : Node) : Prop where
  applied_iff : (machine.dispatch host flags instruction).2 = .applied ↔
    machine.mesh.size < flags.maxMeshNodes
  grown : machine.mesh.size < flags.maxMeshNodes → ∃ index grown,
    machine.mesh.size ≤ index ∧ Mesh.numbered stem index ∉ machine.mesh.ids ∧
      grown.entries = machine.mesh.entries ++ [(Mesh.numbered stem index, node)] ∧
      (machine.dispatch host flags instruction).1 = ⟨{ machine with mesh := grown }, host⟩
  refused : flags.maxMeshNodes ≤ machine.mesh.size →
    machine.dispatch host flags instruction =
      (⟨machine, host⟩, .fatal (.capacityExceeded machine.mesh.size flags.maxMeshNodes))

/-- What places a node under an id that is made up creates one. -/
theorem founds_of_place {machine : Machine} {host : Host} {flags : Config}
    {instruction : Instruction} {stem : String} {vector : SpiralVector}
    {added initial : List String}
    (h : machine.dispatch host flags instruction =
      machine.settle host flags.maxMeshNodes
        (machine.toCore.place flags.maxMeshNodes (machine.mesh.nextId stem) vector added initial)) :
    machine.Founds host flags instruction stem
      { Node.new vector with connections := initial.eraseDups } := by
  have hnew := machine.mesh.nextId_notMem stem
  rw [machine.toCore.place_of_notMem _ hnew, Node.connectAll_new] at h
  constructor
  · rw [h]
    split_ifs with hroom
    · simp [settle, hroom]
    · simp [settle, hroom]
  · intro hroom
    obtain ⟨index, hindex, hid⟩ := machine.mesh.exists_nextId_numbered stem
    rw [h, if_pos hroom]
    exact ⟨index, _, hindex, hid ▸ hnew, hid ▸ rfl, rfl⟩
  · intro hfull
    rw [h, if_neg (not_lt.mpr hfull)]
    rfl

/-- MESH steps without arguments make a chain longer, as far as there is room. -/
theorem runSteps_chain {flags : Config} {vector : SpiralVector} {steps : List Step}
    (hsteps : ∀ step ∈ steps, step.instruction = .default .mesh) {machine : Machine} {count : ℕ}
    (h : machine.mesh.entries = Core.chain vector count) (hvector : machine.registers.a = vector)
    (hroom : count + steps.length ≤ flags.maxMeshNodes) (host : Host) (faults : ℕ) :
    let progress := runSteps flags steps machine host faults
    progress.failure = none ∧ progress.machine.registers = machine.registers ∧
      progress.machine.mesh.entries = Core.chain vector (count + steps.length) := by
  induction steps generalizing machine count host faults with
  | nil => exact ⟨rfl, rfl, h⟩
  | cons step rest ih =>
    rw [List.forall_mem_cons] at hsteps
    rw [List.length_cons] at hroom ⊢
    obtain ⟨grown, hgrown, hlink⟩ := machine.toCore.link_chain h hvector
      (show count < flags.maxMeshNodes by omega)
    have happly (lesson : Option Lesson) :
        machine.toCore.apply flags.maxMeshNodes lesson step.instruction =
          .applied { machine.toCore with mesh := grown } := by
      rw [hsteps.1]
      exact hlink
    obtain ⟨hafter, hfatal⟩ := machine.dispatched_after host flags step
    obtain ⟨_, _, _, _, -, hperform⟩ := machine.perform_machine host flags step
    rw [happly] at hafter hfatal
    rw [hafter] at hperform
    rw [runSteps_cons_eq, hfatal, Nat.add_comm rest.length, ← Nat.add_assoc]
    dsimp only [Change.error?]
    obtain ⟨hfailure, hregisters, hentries⟩ := ih hsteps.2
      (show (machine.perform host flags step).1.machine.mesh.entries = _ by rwa [hperform])
      (show (machine.perform host flags step).1.machine.registers.a = _ by rwa [hperform])
      (by omega) (machine.perform host flags step).1.host
      (faults + (machine.dispatched host flags step).fault?.toList.length)
    exact ⟨hfailure, hregisters.trans (by rw [hperform]; rfl), hentries⟩

/-- A MESH or a FORGE without an id is applied exactly if there is room for one more node. It then
creates one with register A for its vector, or the sum of A and B as phases, and its connections are
those that are given, each once and where it comes first; a MESH without a list connects its node to
the last one there was. Otherwise nothing is done. MESH steps without arguments build a chain on
an empty mesh that has room for them. -/
theorem dispatch_unnamed (machine : Machine) (host : Host) :
    (∀ flags,
      (∀ connect, machine.Founds host flags (.mesh none connect) "node"
        { Node.new machine.registers.a with
          connections := connect.elim machine.mesh.lastId?.toList List.eraseDups }) ∧
      ∀ connect, machine.Founds host flags (.forge none connect) "forge"
        { Node.new (machine.registers.a.wrappedSum machine.registers.b) with
          connections := connect.eraseDups }) ∧
    ∀ program mode, machine.mesh.isEmpty →
      (∀ step ∈ program.steps, step.instruction = .default .mesh) →
      program.size ≤ machine.config.maxMeshNodes →
      let done := machine.execute host program mode
      done.1.machine.mesh.entries = Core.chain machine.registers.a program.size ∧
        done.1.machine.registers = machine.registers ∧
        ∀ error, done.2 = .error error → ∃ cause, error = .persistence cause := by
  refine ⟨fun flags ↦ ⟨fun connect ↦ ?_, fun connect ↦ founds_of_place rfl⟩,
    fun program mode hempty hsteps hroom ↦ ?_⟩
  · have hlast : machine.mesh.lastId?.toList.eraseDups = machine.mesh.lastId?.toList := by
      cases machine.mesh.lastId? <;> simp [List.eraseDups_cons]
    have hfounds : machine.Founds host flags (.mesh none connect) "node" _ := founds_of_place rfl
    cases connect with
    | none => exact hlast ▸ hfounds
    | some targets => exact hfounds
  · have hentries : machine.mesh.entries = Core.chain machine.registers.a 0 := by
      simpa [Mesh.isEmpty, Core.chain] using hempty
    obtain ⟨hfailure, hregisters, hchain⟩ := runSteps_chain hsteps
      (show (machine.started program mode).mesh.entries = _ from hentries) rfl
      (by rwa [Nat.zero_add]) host 0
    obtain ⟨-, -, hlast, -, -⟩ := runSteps_outcome machine.config program.steps
      (machine.started program mode) host 0
    dsimp only
    rw [execute_machine]
    refine ⟨by rwa [Nat.zero_add] at hchain, hregisters, fun error herror ↦ ?_⟩
    obtain ⟨-, hresult⟩ := machine.execute_result host program mode
    rcases hresult error herror with hfatal | ⟨cause, hcause, -⟩
    · cases hfailure.symm.trans (hlast.trans hfatal)
    · exact ⟨cause, hcause⟩

/-- The id after the only node is taken by it. There is room for one node more, and for a chain of
two on an empty mesh. -/
theorem unnamed_of_taken_id :
    let machine := { Machine.new { Config.default with maxMeshNodes := 2 } .none with
      mesh := .ofList [("node_1", .new .zero)]
      registers := RegisterFile.zero.set .a .seed }
    let host : Host := ⟨.empty, [], 0⟩
    let done := machine.dispatch host machine.config (.mesh none (some ["b", "node_1", "b"]))
    let empty := { machine with mesh := .empty }
    let program := Program.ofInstructions [.mesh none none, .mesh none none]
    done.2 = .applied ∧
      (∃ index, 2 ≤ index ∧ done.1.machine.mesh.entries =
        [("node_1", .new .zero),
          (Mesh.numbered "node" index,
            { Node.new .seed with connections := ["b", "node_1"] })]) ∧
      done.1.machine.registers = machine.registers ∧
      (empty.execute host program .execute).1.machine.mesh.entries =
        [("node_0", .new .seed),
          ("node_1", { Node.new .seed with connections := ["node_0"] })] := by
  intro machine host done empty program
  obtain ⟨hfounds, -⟩ := machine.dispatch_unnamed host
  obtain ⟨-, hchains⟩ := empty.dispatch_unnamed host
  have hmesh := (hfounds machine.config).1 (some ["b", "node_1", "b"])
  have hroom : machine.mesh.size < machine.config.maxMeshNodes := by decide +kernel
  obtain ⟨index, grown, hindex, hnew, hgrown, hdone⟩ := hmesh.grown hroom
  obtain ⟨hchain, -, -⟩ := hchains program .execute rfl
    (by simp [program, Program.ofInstructions, Instruction.default]) (by decide +kernel)
  have hother : index ≠ 1 := by
    rintro rfl
    exact hnew (by decide +kernel)
  have hsize : 1 ≤ index := hindex
  refine ⟨hmesh.applied_iff.mpr hroom, ⟨index, by omega, ?_⟩,
    congrArg (·.machine.registers) hdone, hchain.trans ?_⟩
  · change (machine.dispatch _ _ _).1.machine.mesh.entries = _
    rw [hdone, hgrown]
    rfl
  · rfl

end Machine

end SpiralMachine
