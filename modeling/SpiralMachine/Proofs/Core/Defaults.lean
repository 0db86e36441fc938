import SpiralMachine.Proofs.Core.Budget
import SpiralMachine.Proofs.Core.Growth
import SpiralMachine.Proofs.Mesh.FreshId

/-!
# Instructions without arguments

What an opcode does to the mesh when every argument is left out. MESH and FORGE make up the id of
their node and so always create one; CYCLE creates its first node once (`present_default`). Only
these three create any (`founding`), and four others need one that is there (`needing`): in an empty
mesh they are faults, and no other instruction has that fault (`apply_default_emptyMesh`).
-/

set_option autoImplicit false

namespace SpiralMachine

namespace Opcode

/-- The opcodes that create nodes. -/
def founding : List Opcode := [.mesh, .cycle, .forge]

/-- The opcodes that work on nodes which are there, and pick some if none are named. -/
def needing : List Opcode := [.flow, .seek, .mask, .cryst]

/-- So many nodes are created for opcodes without arguments. The node of the cycle may be there
already. -/
def demand (cycled : Bool) (ops : List Opcode) : Nat :=
  ops.count .mesh + ops.count .forge + if .cycle ∈ ops ∧ cycled = false then 1 else 0

theorem demand_cons (cycled : Bool) (op : Opcode) (rest : List Opcode) :
    demand cycled (op :: rest) =
      demand cycled [op] + demand (cycled || op = .cycle) rest := by
  unfold demand
  cases op <;> cases cycled <;> simp <;> omega

theorem demand_singleton_le (cycled : Bool) (op : Opcode) : demand cycled [op] ≤ 1 := by
  cases op <;> cases cycled <;> decide

theorem founding_of_demand {cycled : Bool} {op : Opcode} (h : demand cycled [op] ≠ 0) :
    op ∈ founding := by
  revert h
  cases op <;> cases cycled <;> decide

theorem notMem_needing_of_founding {op : Opcode} (h : op ∈ founding) : op ∉ needing := by
  revert h
  cases op <;> decide

end Opcode

theorem Instruction.default_ne_init (op : Opcode) : Instruction.default op ≠ .init true := by
  cases op <;> simp [Instruction.default]

/-! ### What the fault of an empty mesh reads like -/

theorem Opcode.blank_notMem_name (op : Opcode) : ∀ c ∈ op.name.toList, c ≠ ' ' := by
  cases op <;> simp [name]

/-- Texts that are equal are equal after their first words. -/
theorem eq_of_append_blank {word other rest otherRest : List Char} (hword : ∀ c ∈ word, c ≠ ' ')
    (hother : ∀ c ∈ other, c ≠ ' ') (h : word ++ ' ' :: rest = other ++ ' ' :: otherRest) :
    rest = otherRest := by
  have hdrop {letters rest : List Char} (hletters : ∀ c ∈ letters, c ≠ ' ') :
      (letters ++ ' ' :: rest).dropWhile (· ≠ ' ') = ' ' :: rest :=
    List.dropWhile_append_of_pos (by simpa using hletters)
  have hrest := congrArg (List.dropWhile (· ≠ ' ')) h
  rw [hdrop hword, hdrop hother] at hrest
  exact (List.cons.inj hrest).2

/-- No other fault reads like that of an empty mesh: they differ after their first words. -/
theorem Fault.eq_emptyMesh_of_message {fault : Fault} {op : Opcode}
    (h : fault.message = (Fault.emptyMesh op).message) : ∃ other, fault = .emptyMesh other := by
  have hdiffers {word : List Char} {rest : List Char} (hword : ∀ c ∈ word, c ≠ ' ')
      (hmessage : fault.message.toList = word ++ ' ' :: rest) :
      rest = "requires a non-empty mesh".toList := by
    have hempty : (Fault.emptyMesh op).message.toList =
        op.name.toList ++ ' ' :: "requires a non-empty mesh".toList := String.toList_append
    exact eq_of_append_blank hword op.blank_notMem_name
      (hmessage.symm.trans ((congrArg String.toList h).trans hempty))
  cases fault with
  | emptyMesh other => exact ⟨other, rfl⟩
  | nodeNotFound id =>
    have hmessage : (nodeNotFound id).message.toList =
        "mesh".toList ++ ' ' :: ("node '".toList ++ (id.toList ++ "' not found".toList)) := by
      change ("mesh node '" ++ id ++ "' not found").toList = _
      simp only [String.toList_append, List.append_assoc]
      rfl
    exact absurd (hdiffers (by simp) hmessage) (by simp)
  | reversedRange name start stop =>
    have hmessage : (reversedRange name start stop).message.toList =
        name.name.toList ++ ' ' :: ("range ".toList ++ ((toString start).toList ++
          ("..".toList ++ ((toString stop).toList ++ " is reversed".toList)))) := by
      change (name.name ++ " range " ++ toString start ++ ".." ++ toString stop ++
        " is reversed").toList = _
      simp only [String.toList_append, List.append_assoc]
      rfl
    exact absurd (hdiffers name.blank_notMem_name hmessage) (by simp)
  | invalidBounds min max =>
    let plain (x : Float) : String := String.ofList (Number.plain.write x)
    have hmessage : (invalidBounds min max).message.toList =
        "bounds".toList ++ ' ' :: ("[".toList ++ ((plain min).toList ++
          (", ".toList ++ ((plain max).toList ++ "] are empty or not finite".toList)))) := by
      change ("bounds [" ++ plain min ++ ", " ++ plain max ++
        "] are empty or not finite").toList = _
      simp only [String.toList_append, List.append_assoc]
      rfl
    exact absurd (hdiffers (by simp) hmessage) (by simp)
  | nonFinite name =>
    have hmessage : (nonFinite name).message.toList =
        name.name.toList ++ ' ' :: "produced a non-finite vector".toList := String.toList_append
    exact absurd (hdiffers name.blank_notMem_name hmessage) (by simp)
  | unsaved reason =>
    have hmessage : (unsaved reason).message.toList =
        "crystal".toList ++ ' ' :: ("write failed: ".toList ++ reason.toList) := by
      change ("crystal write failed: " ++ reason).toList = _
      rw [String.toList_append]
      rfl
    exact absurd (hdiffers (by simp) hmessage) (by simp)

namespace Core

/-! ### What is created -/

variable (core : Core)

theorem ground_default (op : Opcode) : core.ground (.default op) = core.mesh := by
  cases op <;> rfl

/-- Ids that are made up of a stem without the first letter of the cycle's do not collide with
them. -/
theorem cycleId_ne_nextId (mesh : Mesh) {stem : String} {first : Char} {others : List Char}
    (hstem : stem.toList = first :: others) (hfirst : first ≠ 'c') :
    cycleId 0 ≠ mesh.nextId stem := by
  obtain ⟨rest, hrest⟩ := mesh.exists_nextId_eq stem
  intro heq
  have hcycle : (cycleId 0).toList = 'c' :: "ycle_0".toList := by decide
  have hletters := congrArg String.toList (heq.trans hrest)
  rw [String.toList_append, hstem, hcycle] at hletters
  exact hfirst (List.cons.inj hletters).1.symm

theorem nodup_wanted_default (op : Opcode) : (core.wanted (.default op)).Nodup := by
  cases op with
  | mesh => exact List.nodup_singleton _
  | forge => exact List.nodup_singleton _
  | cycle => exact List.nodup_singleton _
  | _ => exact List.nodup_nil

/-- The ids that an opcode without arguments creates nodes for: MESH and FORGE make up an id that is
new, and CYCLE needs the first of its own. -/
theorem absent_default (op : Opcode) :
    let absent := (core.wanted (.default op)).filter (· ∉ core.mesh.ids)
    absent.length = Opcode.demand (core.mesh.contains (cycleId 0)) [op] ∧
      (cycleId 0 ∈ absent ↔ op = .cycle ∧ cycleId 0 ∉ core.mesh.ids) := by
  have hmade (stem : String) {first : Char} {others : List Char}
      (hstem : stem.toList = first :: others) (hfirst : first ≠ 'c') :
      ([core.mesh.nextId stem].filter (· ∉ core.mesh.ids)).length = 1 ∧
        cycleId 0 ∉ [core.mesh.nextId stem].filter (· ∉ core.mesh.ids) := by
    have hnew : [core.mesh.nextId stem].filter (· ∉ core.mesh.ids) = [core.mesh.nextId stem] :=
      List.filter_cons_of_pos (by simpa using core.mesh.nextId_notMem stem)
    rw [hnew, List.mem_singleton]
    exact ⟨rfl, cycleId_ne_nextId core.mesh hstem hfirst⟩
  dsimp only
  cases op with
  | mesh =>
    obtain ⟨hlength, hcycle⟩ := hmade "node" rfl (by decide)
    exact ⟨hlength, iff_of_false hcycle fun h ↦ absurd h.1 (by decide)⟩
  | forge =>
    obtain ⟨hlength, hcycle⟩ := hmade "forge" rfl (by decide)
    exact ⟨hlength, iff_of_false hcycle fun h ↦ absurd h.1 (by decide)⟩
  | cycle =>
    change (List.filter _ [cycleId 0]).length = _ ∧ (_ ∈ List.filter _ [cycleId 0] ↔ _)
    by_cases hcycle : cycleId 0 ∈ core.mesh.ids
    · simp [hcycle, Mesh.contains, Opcode.demand]
    · simp [hcycle, Mesh.contains, Opcode.demand]
  | _ => exact ⟨rfl, iff_of_false List.not_mem_nil fun h ↦ absurd h.1 (by decide)⟩

/-- An opcode without arguments exhausts the budget exactly if it demands a node for which there is
no room; otherwise there are so many nodes more, and that of the cycle is among them if it was
before or the opcode is CYCLE. -/
theorem present_default (op : Opcode) :
    let wanted := core.wanted (.default op)
    let demanded := Opcode.demand (core.mesh.contains (cycleId 0)) [op]
    (∀ budget, Exhausts budget core.mesh.ids wanted ↔
      demanded ≠ 0 ∧ budget < core.mesh.size + demanded) ∧
    (present core.mesh.ids wanted).length = core.mesh.size + demanded ∧
    (cycleId 0 ∈ present core.mesh.ids wanted ↔ cycleId 0 ∈ core.mesh.ids ∨ op = .cycle) := by
  obtain ⟨hlength, hcycle⟩ := core.absent_default op
  have hnodup := core.nodup_wanted_default op
  dsimp only at hlength hcycle ⊢
  refine ⟨fun budget ↦ ?_, ?_, ?_⟩
  · rw [exhausts_iff_of_nodup hnodup, ← hlength, Mesh.length_ids, ne_eq, ne_eq,
      List.length_eq_zero_iff]
  · rw [present_of_nodup hnodup, List.length_append, hlength, Mesh.length_ids]
  · rw [present_of_nodup hnodup, List.mem_append, hcycle]
    tauto

/-- The mesh is empty afterwards if it was, and the opcode creates no nodes. -/
theorem present_default_eq_nil_iff (op : Opcode) :
    present core.mesh.ids (core.wanted (.default op)) = [] ↔
      core.mesh.ids = [] ∧ op ∉ Opcode.founding := by
  obtain ⟨-, hlength, -⟩ := core.present_default op
  rw [← Mesh.length_ids] at hlength
  rw [← List.length_eq_zero_iff, hlength, Nat.add_eq_zero_iff, List.length_eq_zero_iff]
  refine and_congr_right fun hids ↦ ?_
  have hcycled : core.mesh.contains (cycleId 0) = false := by
    rw [Mesh.contains, hids]
    rfl
  rw [hcycled]
  cases op <;> decide

/-! ### Faults of an empty mesh -/

variable {core}

theorem ids_eq_nil_of_lastId? (h : core.mesh.lastId? = none) : core.mesh.ids = [] :=
  List.getLast?_eq_none_iff.mp h

theorem flow_emptyMesh {other : Opcode} (h : core.flow none none = .error (.emptyMesh other)) :
    core.mesh.ids = [] := by
  unfold flow at h
  rcases Except.error_of_bind h with hsource | ⟨source, -, h⟩
  · exact List.head?_eq_none_iff.mp (eq_none_of_elim hsource).1
  rcases Except.error_of_bind h with htarget | ⟨target, -, h⟩
  · exact ids_eq_nil_of_lastId? (eq_none_of_elim htarget).1
  rcases Except.error_of_bind h with horigin | ⟨origin, -, h⟩
  · exact nomatch (eq_none_of_elim horigin).2
  rcases Except.error_of_bind h with hnode | ⟨node, -, h⟩
  · exact nomatch (eq_none_of_elim hnode).2
  rcases Except.error_of_bind h with hvector | ⟨vector, -, h⟩
  · unfold finite at hvector
    split at hvector <;> cases hvector
  · dsimp only at h
    split at h <;> cases h

/-- Of several vectors one is the best. -/
theorem best_ne_none (first : Float × SpiralVector) (rest : List (Float × SpiralVector)) :
    best (first :: rest) ≠ none := by
  unfold best
  rw [List.foldl_cons]
  dsimp only
  induction rest generalizing first with
  | nil => exact Option.some_ne_none first
  | cons second rest ih =>
    rw [List.foldl_cons]
    dsimp only
    split <;> exact ih _

theorem seek_emptyMesh {register : Register} {other : Opcode}
    (h : core.seek none register = .error (.emptyMesh other)) : core.mesh.ids = [] := by
  unfold seek at h
  dsimp only at h
  cases hentries : core.mesh.entries with
  | nil => rw [Mesh.ids, hentries, List.map_nil]
  | cons entry rest =>
    split at h
    · cases h
    · rename_i hbest
      rw [Mesh.nodes, hentries, List.map_cons, List.map_cons] at hbest
      exact absurd hbest (best_ne_none _ _)

theorem mask_emptyMesh {register : Register} {other : Opcode}
    (h : core.mask none register = .error (.emptyMesh other)) : core.mesh.ids = [] := by
  unfold mask at h
  rcases Except.error_of_bind h with htarget | ⟨id, -, h⟩
  · exact ids_eq_nil_of_lastId? (eq_none_of_elim htarget).1
  · split at h <;> cases h

theorem cryst_emptyMesh {other : Opcode} (h : core.cryst none = .error (.emptyMesh other)) :
    core.mesh.ids = [] := by
  unfold cryst at h
  rcases Except.error_of_bind h with htarget | ⟨id, -, h⟩
  · exact ids_eq_nil_of_lastId? (eq_none_of_elim htarget).1
  · cases h

/-- An opcode without arguments reports an empty mesh only where the mesh is empty, and only if it
needs a node. -/
theorem apply_default_emptyMesh {op other : Opcode} {budget : Nat} {lesson : Option Lesson}
    (h : core.apply budget lesson (.default op) = .fault (.emptyMesh other)) :
    core.mesh.ids = [] ∧ op ∈ Opcode.needing := by
  cases op with
  | flow => exact ⟨flow_emptyMesh (eq_error_of_ofExcept h), by decide⟩
  | seek => exact ⟨seek_emptyMesh (eq_error_of_ofExcept h), by decide⟩
  | mask => exact ⟨mask_emptyMesh (eq_error_of_ofExcept h), by decide⟩
  | cryst => exact ⟨cryst_emptyMesh (eq_error_of_ofExcept h), by decide⟩
  | mesh => exact (place_ne_fault _ _ _ _ _ _ h).elim
  | forge => exact (place_ne_fault _ _ _ _ _ _ h).elim
  | bound =>
    have hbound : core.bound .a 0.0 turn = _ := eq_error_of_ofExcept h
    unfold bound at hbound
    split at hbound <;> cases hbound
  | cycle =>
    change core.cycle budget 1 0 1 = _ at h
    unfold cycle at h
    split at h
    · cases h
    · split at h <;> cases h
  | spec =>
    rcases Except.error_of_bind (eq_error_of_ofExcept h) with hspectrum | ⟨spectrum, -, hok⟩
    · unfold finite at hspectrum
      split at hspectrum <;> cases hspectrum
    · cases hok
  | _ => cases h

/-- Where the mesh is empty an opcode without arguments that needs a node reports that. -/
theorem apply_default_of_empty (hids : core.mesh.ids = []) {op : Opcode}
    (hneeds : op ∈ Opcode.needing) (budget : Nat) (lesson : Option Lesson) :
    core.apply budget lesson (.default op) = .fault (.emptyMesh op) := by
  have hfirst : core.mesh.firstId? = none := by
    rw [Mesh.firstId?, hids]
    rfl
  have hlast : core.mesh.lastId? = none := by
    rw [Mesh.lastId?, hids]
    rfl
  have hnodes : core.mesh.nodes = [] := by
    rw [Mesh.nodes, List.map_eq_nil_iff.mp hids]
    rfl
  cases op with
  | flow =>
    change Change.ofExcept (core.flow none none) = _
    unfold flow
    dsimp only
    rw [hfirst]
    rfl
  | seek =>
    change Change.ofExcept (core.seek none .a) = _
    unfold seek
    rw [hnodes]
    rfl
  | mask =>
    change Change.ofExcept (core.mask none .a) = _
    unfold mask target
    rw [hlast]
    rfl
  | cryst =>
    change Change.ofExcept (core.cryst none) = _
    unfold cryst target
    rw [hlast]
    rfl
  | _ => exact absurd hneeds (by decide)

end Core

end SpiralMachine
