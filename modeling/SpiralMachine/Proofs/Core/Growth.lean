import SpiralMachine.Proofs.Core.Change
import SpiralMachine.Proofs.Mesh.Lookup

/-!
# The mesh grows

`Node.Grows` says that a node has its old connections and after them new ones, each of them once,
and that no key of its memory but those of CRYST is looked up differently. `Mesh.Grows` says that a
mesh has its old ids and after them new ones, that each old node has grown, and each new one from a
bare node. The operations on a mesh let it grow, and so do all instructions but an INIT that clears
the mesh (`apply_grows`).
-/

set_option autoImplicit false

namespace SpiralMachine

/-- A node that has kept its connections and its memory, and may have more of them. -/
structure Node.Grows (old new : Node) : Prop where
  connections : ∃ added, new.connections = old.connections ++ added ∧ added.Nodup ∧
    ∀ target ∈ added, target ∉ old.connections
  memory : ∀ key, key ≠ "crystal" → key ≠ "crystal_depth" →
    new.memory.lookup key = old.memory.lookup key

namespace Node

variable {old new : Node}

/-- Connections and memory are all that growth looks at. -/
theorem grows_of_eq (hconnections : new.connections = old.connections)
    (hmemory : new.memory = old.memory) : old.Grows new where
  connections := ⟨[], by rw [hconnections, List.append_nil], List.nodup_nil, nofun⟩
  memory := fun _ _ _ ↦ by rw [hmemory]

theorem Grows.refl (node : Node) : node.Grows node := grows_of_eq rfl rfl

theorem grows_vector (node : Node) (vector : SpiralVector) : node.Grows { node with vector } :=
  grows_of_eq rfl rfl

theorem grows_score (node : Node) (resonance : Float) : node.Grows { node with resonance } :=
  grows_of_eq rfl rfl

theorem Grows.trans {first second third : Node} (h : first.Grows second)
    (hnext : second.Grows third) : first.Grows third where
  connections := by
    obtain ⟨earlier, hearlier, hnodup, hfresh⟩ := h.connections
    obtain ⟨later, hlater, hnodup', hfresh'⟩ := hnext.connections
    rw [hearlier] at hlater hfresh'
    refine ⟨earlier ++ later, by rw [hlater, List.append_assoc], ?_, fun target htarget ↦ ?_⟩
    · refine List.nodup_append.mpr ⟨hnodup, hnodup', fun target htarget other hother heq ↦ ?_⟩
      exact hfresh' other hother (heq ▸ List.mem_append_right _ htarget)
    · rcases List.mem_append.mp htarget with htarget | htarget
      · exact hfresh target htarget
      · exact fun hold ↦ hfresh' target htarget (List.mem_append_left _ hold)
  memory := fun key hcrystal hdepth ↦
    (hnext.memory key hcrystal hdepth).trans (h.memory key hcrystal hdepth)

/-- Connections without repetition stay so. -/
theorem Grows.nodup (h : old.Grows new) (hold : old.connections.Nodup) :
    new.connections.Nodup := by
  obtain ⟨added, hadded, hnodup, hfresh⟩ := h.connections
  rw [hadded]
  exact List.nodup_append.mpr ⟨hold, hnodup, fun target htarget other hother heq ↦
    hfresh other hother (heq ▸ htarget)⟩

theorem grows_connect (node : Node) (target : String) : node.Grows (node.connect target) := by
  unfold connect
  split
  · exact .refl node
  · rename_i hnew
    exact ⟨⟨[target], rfl, by simp, by simpa using hnew⟩, fun _ _ _ ↦ rfl⟩

theorem grows_connectAll (node : Node) (targets : List String) :
    node.Grows (node.connectAll targets) := by
  induction targets generalizing node with
  | nil => exact .refl node
  | cons target rest ih => exact (node.grows_connect target).trans (ih (node.connect target))

/-- What CRYST writes into a memory. -/
theorem grows_remember (node : Node) (crystal depth : Json) :
    node.Grows { node with
      memory :=
        Keyed.insert "crystal_depth" depth (Keyed.insert "crystal" crystal node.memory) } where
  connections := ⟨[], (List.append_nil _).symm, List.nodup_nil, nofun⟩
  memory := fun key hcrystal hdepth ↦ by
    rw [Keyed.lookup_insert, if_neg hdepth, Keyed.lookup_insert, if_neg hcrystal]

end Node

/-- A mesh that has kept its nodes, each grown, and may have new ones after them. -/
structure Mesh.Grows (old new : Mesh) : Prop where
  ids : old.ids <+: new.ids
  nodes : ∀ id node, new.get? id = some node → ((old.get? id).getD (.new .zero)).Grows node

namespace Mesh

variable {mesh : Mesh}

theorem Grows.refl (mesh : Mesh) : mesh.Grows mesh where
  ids := List.prefix_rfl
  nodes := fun id node hnode ↦ by
    rw [hnode]
    exact .refl node

theorem Grows.trans {first second third : Mesh} (h : first.Grows second)
    (hnext : second.Grows third) : first.Grows third where
  ids := h.ids.trans hnext.ids
  nodes := fun id node hnode ↦ by
    have hgrown := hnext.nodes id node hnode
    cases hmiddle : second.get? id with
    | some middle =>
      rw [hmiddle] at hgrown
      exact (h.nodes id middle hmiddle).trans hgrown
    | none =>
      -- what was not there in between was not there before
      have hfirst : first.get? id = none :=
        get?_eq_none_iff.mpr fun hid ↦ get?_eq_none_iff.mp hmiddle (h.ids.subset hid)
      rw [hmiddle] at hgrown
      rwa [hfirst]

/-- A node that a mesh had is still there, grown. -/
theorem Grows.get? {old new : Mesh} (h : old.Grows new) {id : String} {node : Node}
    (hnode : old.get? id = some node) :
    ∃ later, new.get? id = some later ∧ node.Grows later := by
  have hid : id ∈ new.ids := h.ids.subset (mem_ids_of_get? hnode)
  obtain ⟨later, hlater⟩ := Option.isSome_iff_exists.mp (get?_isSome_iff.mpr hid)
  have hgrown := h.nodes id later hlater
  rw [hnode] at hgrown
  exact ⟨later, hlater, hgrown⟩

theorem grows_mapNodes {change : String → Node → Node}
    (h : ∀ (id : String) (node : Node), node.Grows (change id node)) :
    mesh.Grows (mesh.mapNodes change) where
  ids := ids_mapNodes mesh change ▸ List.prefix_rfl
  nodes := fun id node hnode ↦ by
    rw [get?_mapNodes] at hnode
    obtain ⟨old, hold, rfl⟩ := Option.map_eq_some_iff.mp hnode
    rw [hold]
    exact h id old

theorem grows_modify (id : String) {change : Node → Node}
    (h : ∀ node : Node, node.Grows (change node)) : mesh.Grows (mesh.modify id change) :=
  grows_mapNodes fun other node ↦ by
    split
    · exact h node
    · exact .refl node

/-- A new node has grown from a bare one. -/
theorem grows_insert {id : String} {node : Node} (hnew : id ∉ mesh.ids)
    (h : (Node.new .zero).Grows node) : mesh.Grows (mesh.insert id node) where
  ids := by
    rw [ids_insert, if_neg hnew]
    exact List.prefix_append ..
  nodes := fun other found hfound ↦ by
    rw [get?_insert] at hfound
    split at hfound
    · rename_i heq
      cases hfound
      rwa [heq, get?_eq_none_iff.mpr hnew]
    · rw [hfound]
      exact .refl found

end Mesh

namespace Core

variable {core changed : Core}

/-- A node that is created has grown from a bare one, whatever connections it is given. -/
theorem grows_new (vector : SpiralVector) (targets : List String) :
    (Node.new .zero).Grows ((Node.new vector).connectAll targets) :=
  .trans (Node.grows_vector _ vector) (Node.grows_connectAll _ targets)

theorem place_grows (core : Core) (budget : Nat) (id : String) (vector : SpiralVector)
    (added initial : List String) :
    core.mesh.Grows ((core.place budget id vector added initial).result core).mesh := by
  unfold place
  split
  · exact Mesh.grows_modify id fun node ↦
      (node.grows_vector vector).trans (Node.grows_connectAll _ added)
  · rename_i hcontains
    split
    · exact Mesh.grows_insert (mt Mesh.contains_iff.mpr hcontains) (grows_new vector initial)
    · exact .refl core.mesh

theorem flow_grows {source target : Option String} (h : core.flow source target = .ok changed) :
    core.mesh.Grows changed.mesh := by
  obtain ⟨start, goal, vector, -, -, -, rfl⟩ := flow_ok h
  have hmoved : core.mesh.Grows (core.mesh.modify goal fun node ↦ { node with vector }) :=
    Mesh.grows_modify goal fun node ↦ node.grows_vector vector
  dsimp only
  split
  · exact hmoved
  · exact hmoved.trans (Mesh.grows_modify start fun node ↦ node.grows_connect goal)

theorem cycleNode?_grows {mesh next : Mesh} {budget count index : Nat} {seed : SpiralVector}
    (h : cycleNode? mesh budget seed count index = some next) : mesh.Grows next := by
  have hrotate (rotated : Mesh) : rotated.Grows (rotated.modify (cycleId index) fun node ↦
      { node with vector := node.vector.rotateBy count }) :=
    Mesh.grows_modify _ fun node ↦ node.grows_vector _
  unfold cycleNode? at h
  dsimp only at h
  split at h
  · cases h
    exact hrotate mesh
  · rename_i hcontains
    split at h
    · cases h
      exact .trans (Mesh.grows_insert (mt Mesh.contains_iff.mpr hcontains) (grows_new seed _))
        (hrotate _)
    · cases h

theorem cycleNodes_grows (budget : Nat) (seed : SpiralVector) (count length index : Nat)
    (mesh : Mesh) : mesh.Grows (cycleNodes budget seed count length index mesh).1 := by
  induction length generalizing mesh index with
  | zero => exact .refl mesh
  | succ length ih =>
    unfold cycleNodes
    split
    · rename_i next hnext
      exact (cycleNode?_grows hnext).trans (ih (index + 1) next)
    · exact .refl mesh

/-- A cycle that comes to the end of the budget has grown the mesh as far as it came. -/
theorem cycle_grows (core : Core) (budget : Nat) (count : UInt32) (start stop : Nat) :
    core.mesh.Grows ((core.cycle budget count start stop).result core).mesh := by
  have hnodes := cycleNodes_grows budget core.registers.a count.toNat (stop - start) start
    core.mesh
  unfold cycle
  split
  · exact .refl core.mesh
  · split <;> rename_i hmesh <;> rw [hmesh] at hnodes <;> exact hnodes

theorem sync_grows (core : Core) : core.mesh.Grows core.sync.mesh :=
  Mesh.grows_mapNodes fun _ node ↦ node.grows_score (Resonance.pair node.vector core.registers.a)

theorem mask_grows {node : Option String} {register : Register}
    (h : core.mask node register = .ok changed) : core.mesh.Grows changed.mesh := by
  obtain ⟨id, found, -, -, rfl⟩ := mask_ok h
  exact Mesh.grows_modify id fun node ↦ node.grows_vector _

theorem cryst_grows {node : Option String} (h : core.cryst node = .ok changed) :
    core.mesh.Grows changed.mesh := by
  obtain ⟨id, -, rfl⟩ := cryst_ok h
  exact Mesh.grows_modify id fun node ↦ node.grows_remember _ _

/-- Whatever an instruction comes to, the mesh has grown, unless it was to be cleared. -/
theorem apply_grows (core : Core) (budget : Nat) (lesson : Option Lesson)
    {instruction : Instruction} (h : instruction ≠ .init true) :
    core.mesh.Grows ((core.apply budget lesson instruction).result core).mesh := by
  have hattempt {attempt : Except Fault Core}
      (hok : ∀ changed, attempt = .ok changed → core.mesh.Grows changed.mesh) :
      core.mesh.Grows ((Change.ofExcept attempt).result core).mesh :=
    result_ofExcept (core.mesh.Grows ·.mesh) (.refl core.mesh) hok
  have hloads {changed : Core} (hloaded : core.Loads changed) : core.mesh.Grows changed.mesh := by
    rw [hloaded.mesh]
    exact .refl core.mesh
  cases instruction with
  | init clears =>
    cases clears with
    | true => exact absurd rfl h
    | false => exact .refl core.mesh
  | mesh id connect => exact place_grows ..
  | forge id connect => exact place_grows ..
  | bound register min max => exact hattempt fun changed hchanged ↦ hloads (bound_loads hchanged)
  | flow source target => exact hattempt fun changed hchanged ↦ flow_grows hchanged
  | seek node register => exact hattempt fun changed hchanged ↦ hloads (seek_loads hchanged)
  | cycle count start stop => exact cycle_grows ..
  | sync here remote => exact sync_grows core
  | mask node register => exact hattempt fun changed hchanged ↦ mask_grows hchanged
  | cryst node => exact hattempt fun changed hchanged ↦ cryst_grows hchanged
  | spec => exact hattempt fun changed hchanged ↦ hloads (spec_loads hchanged)
  | bloom => cases lesson <;> exact .refl core.mesh
  | _ => exact .refl core.mesh

end Core

end SpiralMachine
