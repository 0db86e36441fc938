import SpiralMachine.Proofs.Core.Cycle

/-!
# Footprints

The footprint of an instruction is what it may change: registers, and parts of the nodes that are
there. A footprint covers a change of a core if all else is as it was (`Footprint.Covers`), and the
footprint of each instruction covers what the instruction does, however it ends (`apply_covers`).

The mesh resonates by its ids, its vectors and its connections, so that instructions without any of
these in their footprint leave its resonance alone (`apply_resonance`).
-/

set_option autoImplicit false

namespace SpiralMachine

/-- What an instruction may change: registers, the vectors, memories and connections of nodes, and
the scores of all nodes. -/
structure Footprint where
  registers : List Register := []
  vectors : List String := []
  memories : List String := []
  connections : List String := []
  scores : Bool := false

namespace Footprint

variable {footprint : Footprint}

/-- A node under `id` differs from what it was only where a footprint lets it. -/
structure Permits (footprint : Footprint) (id : String) (node later : Node) : Prop where
  vector : id ∉ footprint.vectors → later.vector = node.vector
  memory : id ∉ footprint.memories → later.memory = node.memory
  connections : id ∉ footprint.connections → later.connections = node.connections
  resonance : footprint.scores = false → later.resonance = node.resonance

theorem Permits.refl (footprint : Footprint) (id : String) (node : Node) :
    footprint.Permits id node node :=
  ⟨fun _ ↦ rfl, fun _ ↦ rfl, fun _ ↦ rfl, fun _ ↦ rfl⟩

theorem Permits.trans {id : String} {first second third : Node}
    (h : footprint.Permits id first second) (hnext : footprint.Permits id second third) :
    footprint.Permits id first third where
  vector := fun hid ↦ (hnext.vector hid).trans (h.vector hid)
  memory := fun hid ↦ (hnext.memory hid).trans (h.memory hid)
  connections := fun hid ↦ (hnext.connections hid).trans (h.connections hid)
  resonance := fun hscores ↦ (hnext.resonance hscores).trans (h.resonance hscores)

/-- Every node of a mesh is still there, and differs only where a footprint lets it. -/
def CoversMesh (footprint : Footprint) (old new : Mesh) : Prop :=
  ∀ id node, old.get? id = some node →
    ∃ later, new.get? id = some later ∧ footprint.Permits id node later

theorem CoversMesh.refl (footprint : Footprint) (mesh : Mesh) : footprint.CoversMesh mesh mesh :=
  fun id node hnode ↦ ⟨node, hnode, .refl footprint id node⟩

theorem CoversMesh.trans {first second third : Mesh} (h : footprint.CoversMesh first second)
    (hnext : footprint.CoversMesh second third) : footprint.CoversMesh first third := by
  intro id node hnode
  obtain ⟨middle, hmiddle, hfirst⟩ := h id node hnode
  obtain ⟨later, hlater, hsecond⟩ := hnext id middle hmiddle
  exact ⟨later, hlater, hfirst.trans hsecond⟩

theorem coversMesh_mapNodes (mesh : Mesh) {change : String → Node → Node}
    (h : ∀ id node, footprint.Permits id node (change id node)) :
    footprint.CoversMesh mesh (mesh.mapNodes change) := by
  intro id node hnode
  rw [Mesh.get?_mapNodes, hnode]
  exact ⟨change id node, rfl, h id node⟩

theorem coversMesh_modify (mesh : Mesh) (id : String) {change : Node → Node}
    (h : ∀ node, footprint.Permits id node (change node)) :
    footprint.CoversMesh mesh (mesh.modify id change) := by
  refine coversMesh_mapNodes mesh fun other node ↦ ?_
  split
  · rename_i heq
    subst heq
    exact h node
  · exact .refl footprint other node

theorem coversMesh_move {id : String} (h : id ∈ footprint.vectors) (mesh : Mesh)
    (vector : SpiralVector) :
    footprint.CoversMesh mesh (mesh.modify id fun node ↦ { node with vector }) :=
  coversMesh_modify mesh id fun _ ↦ ⟨absurd h, fun _ ↦ rfl, fun _ ↦ rfl, fun _ ↦ rfl⟩

/-- A node under a new id changes none that is there. -/
theorem coversMesh_insert (footprint : Footprint) {mesh : Mesh} {id : String} (hnew : id ∉ mesh.ids)
    (node : Node) : footprint.CoversMesh mesh (mesh.insert id node) := by
  intro other found hfound
  have hne : other ≠ id := fun heq ↦ hnew (heq ▸ Mesh.mem_ids_of_get? hfound)
  rw [Mesh.get?_insert, if_neg hne]
  exact ⟨found, hfound, .refl footprint other found⟩

/-- A core differs from what it was only where a footprint lets it. The depth is left open. -/
structure Covers (footprint : Footprint) (core changed : Core) : Prop where
  registers : ∀ register ∉ footprint.registers,
    changed.registers.get register = core.registers.get register
  mesh : footprint.CoversMesh core.mesh changed.mesh

theorem Covers.refl (footprint : Footprint) (core : Core) : footprint.Covers core core :=
  ⟨fun _ _ ↦ rfl, .refl footprint core.mesh⟩

theorem covers_setRegister {register : Register} (h : register ∈ footprint.registers) (core : Core)
    (vector : SpiralVector) : footprint.Covers core (core.setRegister register vector) where
  registers := fun other hother ↦ by
    have hne : other ≠ register := fun heq ↦ hother (heq ▸ h)
    exact (RegisterFile.get_set ..).trans (if_neg hne)
  mesh := .refl footprint core.mesh

theorem covers_withMesh {core : Core} {mesh : Mesh} (h : footprint.CoversMesh core.mesh mesh) :
    footprint.Covers core { core with mesh } :=
  ⟨fun _ _ ↦ rfl, h⟩

end Footprint

/-- Connecting a node to another one adds a connection, or nothing at all. -/
theorem Node.connect_eq (node : Node) (target : String) :
    ∃ added : List String, added.length ≤ 1 ∧
      node.connect target = { node with connections := node.connections ++ added } := by
  unfold connect
  split
  · exact ⟨[], Nat.zero_le 1, by rw [List.append_nil]⟩
  · exact ⟨[target], Nat.le_refl 1, rfl⟩

/-- Connecting a node changes its connections and nothing else. -/
theorem Node.connectAll_eq (node : Node) (targets : List String) :
    ∃ connections, node.connectAll targets = { node with connections } := by
  induction targets generalizing node with
  | nil => exact ⟨node.connections, rfl⟩
  | cons target rest ih =>
    obtain ⟨connections, hrest⟩ := ih (node.connect target)
    obtain ⟨added, -, hconnected⟩ := node.connect_eq target
    exact ⟨connections, hrest.trans (by rw [hconnected])⟩

/-- The instructions that create no node and touch neither vectors nor connections of nodes. -/
def Instruction.isStill : Instruction → Bool
  | init clears => !clears
  | phi _ | rot _ | bound _ _ _ | seek _ _ | spiral _ _ | sync _ _ | cryst _ | spec | bloom
  | save _ => true
  | mesh _ _ | flow _ _ | cycle _ _ _ | forge _ _ | mask _ _ => false

namespace Core

/-- The footprint of an instruction. The id that MESH or FORGE make up is new, so that there is no
node under it. FLOW connects no node to itself. -/
def footprint (core : Core) : Instruction → Footprint
  | .init _ => { registers := Register.all }
  | .mesh id _ | .forge id _ => { vectors := id.toList, connections := id.toList }
  | .phi register | .rot register | .bound register _ _ | .seek _ register
  | .spiral _ register => { registers := [register] }
  | .flow source target =>
    let start := source.or core.mesh.firstId?
    let goal := target.or core.mesh.lastId?
    { vectors := goal.toList, connections := if start = goal then [] else start.toList }
  | .cycle _ start stop => { vectors := (List.range' start (stop - start)).map cycleId }
  | .sync _ _ => { scores := true }
  | .mask node register =>
    { registers := [register], vectors := (node.or core.mesh.lastId?).toList }
  | .cryst node => { memories := (node.or core.mesh.lastId?).toList }
  | .spec => { registers := [.d] }
  | .bloom => { registers := [.c] }
  | .save _ => {}

variable {core changed : Core}

/-- Placing a node covers the one that is there under its id, if there is one. -/
theorem place_covers {footprint : Footprint} {id : String}
    (h : id ∈ core.mesh.ids → id ∈ footprint.vectors ∧ id ∈ footprint.connections) (budget : Nat)
    (vector : SpiralVector) (added initial : List String) :
    footprint.Covers core ((core.place budget id vector added initial).result core) := by
  unfold place
  split
  · rename_i hcontains
    obtain ⟨hvector, hconnections⟩ := h (Mesh.contains_iff.mp hcontains)
    refine Footprint.covers_withMesh (Footprint.coversMesh_modify core.mesh id fun node ↦ ?_)
    obtain ⟨connections, hconnected⟩ := Node.connectAll_eq { node with vector } added
    rw [hconnected]
    exact ⟨absurd hvector, fun _ ↦ rfl, absurd hconnections, fun _ ↦ rfl⟩
  · rename_i hcontains
    split
    · exact Footprint.covers_withMesh
        (footprint.coversMesh_insert (mt Mesh.contains_iff.mpr hcontains) _)
    · exact .refl footprint core

/-- A node that is placed under the id that is named, or else under one that is made up. -/
theorem place_named_covers (core : Core) (id : Option String) (stem : String) (budget : Nat)
    (vector : SpiralVector) (added initial : List String) :
    Footprint.Covers { vectors := id.toList, connections := id.toList } core
      ((core.place budget (id.getD (core.mesh.nextId stem)) vector added initial).result core) := by
  refine place_covers (fun hid ↦ ?_) budget vector added initial
  cases id with
  | none => exact absurd hid (core.mesh.nextId_notMem stem)
  | some id => exact ⟨List.mem_singleton_self id, List.mem_singleton_self id⟩

theorem flow_covers {source target : Option String} (h : core.flow source target = .ok changed) :
    (core.footprint (.flow source target)).Covers core changed := by
  obtain ⟨start, goal, vector, hstart, hgoal, -, rfl⟩ := flow_ok h
  have hfootprint : core.footprint (.flow source target) =
      { vectors := [goal], connections := if start = goal then [] else [start] } := by
    simp only [footprint, hstart, hgoal, Option.some.injEq, Option.toList_some]
  rw [hfootprint]
  refine Footprint.covers_withMesh ?_
  have hgoal := List.mem_singleton_self goal
  by_cases heq : start = goal
  · rw [if_pos heq, if_pos heq]
    exact Footprint.coversMesh_move hgoal core.mesh vector
  · rw [if_neg heq, if_neg heq]
    refine (Footprint.coversMesh_move hgoal core.mesh vector).trans
      (Footprint.coversMesh_modify _ start fun node ↦ ?_)
    obtain ⟨added, -, hconnected⟩ := node.connect_eq goal
    rw [hconnected]
    exact ⟨fun _ ↦ rfl, fun _ ↦ rfl, absurd (List.mem_singleton_self start), fun _ ↦ rfl⟩

/-- FLOW gives a node one connection more, at most. -/
theorem apply_flow_connections (core : Core) (budget : Nat) (lesson : Option Lesson)
    (source target : Option String) {id : String} {node : Node}
    (hnode : core.mesh.get? id = some node) :
    ∃ later added,
      ((core.apply budget lesson (.flow source target)).result core).mesh.get? id = some later ∧
        later.connections = node.connections ++ added ∧ added.length ≤ 1 := by
  refine result_ofExcept (fun changed ↦ ∃ later added, changed.mesh.get? id = some later ∧
      later.connections = node.connections ++ added ∧ added.length ≤ 1)
    ⟨node, [], hnode, (List.append_nil _).symm, Nat.zero_le 1⟩ fun changed hchanged ↦ ?_
  obtain ⟨start, goal, vector, -, -, -, rfl⟩ := flow_ok hchanged
  have hmoved : Footprint.CoversMesh { vectors := [goal] } core.mesh
      (core.mesh.modify goal fun node ↦ { node with vector }) :=
    Footprint.coversMesh_move (List.mem_singleton_self goal) core.mesh vector
  obtain ⟨moved, hget, hpermits⟩ := hmoved id node hnode
  rw [← hpermits.connections List.not_mem_nil]
  by_cases hsource : start ≠ goal ∧ id = start
  · obtain ⟨added, hlength, hconnected⟩ := moved.connect_eq goal
    refine ⟨moved.connect goal, added, ?_, by rw [hconnected], hlength⟩
    rw [if_neg hsource.1, Mesh.get?_modify, if_pos hsource.2, hget, Option.map_some]
  · refine ⟨moved, [], ?_, (List.append_nil _).symm, Nat.zero_le 1⟩
    split
    · exact hget
    · rename_i hne
      rw [Mesh.get?_modify, if_neg fun heq ↦ hsource ⟨hne, heq⟩, hget]

/-- A cycle turns the vectors of nodes of its range, as far as it comes. -/
theorem cycle_covers (core : Core) (budget : Nat) (count : UInt32) (start stop : Nat) :
    (core.footprint (.cycle count start stop)).Covers core
      ((core.cycle budget count start stop).result core) := by
  by_cases hle : start ≤ stop
  · obtain ⟨done, hdone, hreached⟩ := exists_cycleNodes budget core.registers.a count.toNat
      (stop - start) start core.mesh
    obtain ⟨hrange, hothers⟩ := get?_cycleNodes hreached
    have hmesh : (core.footprint (.cycle count start stop)).CoversMesh core.mesh
        (cycleNodes budget core.registers.a count.toNat (stop - start) start core.mesh).1 := by
      intro id node hnode
      by_cases hid : ∃ offset < done, id = cycleId (start + offset)
      · obtain ⟨offset, hoffset, rfl⟩ := hid
        have hplace : start + offset ∈ List.range' start (stop - start) :=
          List.mem_range'_1.mpr ⟨Nat.le_add_right start offset, by omega⟩
        refine ⟨_, hrange offset hoffset, ?_⟩
        rw [entered_of_get? hnode]
        exact ⟨absurd (List.mem_map_of_mem hplace), fun _ ↦ rfl, fun _ ↦ rfl, fun _ ↦ rfl⟩
      · push Not at hid
        rw [hothers id hid]
        exact ⟨node, hnode, .refl _ id node⟩
    rw [cycle_of_le core budget count hle]
    split <;> exact Footprint.covers_withMesh hmesh
  · rw [cycle, if_pos (Nat.lt_of_not_le hle)]
    exact .refl _ core

theorem mask_covers {node : Option String} {register : Register}
    (h : core.mask node register = .ok changed) :
    (core.footprint (.mask node register)).Covers core changed := by
  obtain ⟨id, found, hid, -, rfl⟩ := mask_ok h
  have hmem : id ∈ (core.footprint (.mask node register)).vectors :=
    Option.mem_toList.mpr (target_ok hid).1
  exact ⟨(Footprint.covers_setRegister (List.mem_singleton_self register) core _).registers,
    Footprint.coversMesh_move hmem core.mesh _⟩

theorem cryst_covers {node : Option String} (h : core.cryst node = .ok changed) :
    (core.footprint (.cryst node)).Covers core changed := by
  obtain ⟨id, hid, rfl⟩ := cryst_ok h
  have hmem : id ∈ (core.footprint (.cryst node)).memories :=
    Option.mem_toList.mpr (target_ok hid).1
  refine Footprint.covers_withMesh (Footprint.coversMesh_modify core.mesh id fun node ↦ ?_)
  exact ⟨fun _ ↦ rfl, absurd hmem, fun _ ↦ rfl, fun _ ↦ rfl⟩

/-- Whatever an instruction comes to, its footprint covers it, unless the mesh was to be cleared. -/
theorem apply_covers (core : Core) (budget : Nat) (lesson : Option Lesson)
    {instruction : Instruction} (h : instruction ≠ .init true) :
    (core.footprint instruction).Covers core
      ((core.apply budget lesson instruction).result core) := by
  have hattempt {attempt : Except Fault Core}
      (hok : ∀ changed, attempt = .ok changed →
        (core.footprint instruction).Covers core changed) :
      (core.footprint instruction).Covers core ((Change.ofExcept attempt).result core) :=
    result_ofExcept ((core.footprint instruction).Covers core) (.refl _ core) hok
  have hload (register : Register) (vector : SpiralVector) :
      Footprint.Covers { registers := [register] } core (core.setRegister register vector) :=
    Footprint.covers_setRegister (List.mem_singleton_self register) core vector
  cases instruction with
  | init clears =>
    cases clears with
    | true => exact absurd rfl h
    | false =>
      exact ⟨fun register hregister ↦ absurd register.mem_all hregister, .refl _ core.mesh⟩
  | mesh id connect => exact core.place_named_covers id "node" budget _ _ _
  | forge id connect => exact core.place_named_covers id "forge" budget _ _ _
  | phi register => exact hload register _
  | rot register => exact hload register _
  | bound register min max =>
    refine hattempt fun changed hchanged ↦ ?_
    obtain ⟨-, -, rfl⟩ := bound_ok hchanged
    exact hload register _
  | flow source target => exact hattempt fun changed hchanged ↦ flow_covers hchanged
  | seek node register =>
    refine hattempt fun changed hchanged ↦ ?_
    obtain ⟨vector, rfl⟩ := seek_ok hchanged
    exact hload register vector
  | spiral increment register =>
    exact ⟨(hload register (SpiralVector.rotateBy increment.toNat _)).registers, .refl _ core.mesh⟩
  | cycle count start stop => exact core.cycle_covers budget count start stop
  | sync here remote =>
    exact Footprint.covers_withMesh (Footprint.coversMesh_mapNodes core.mesh fun id node ↦
      ⟨fun _ ↦ rfl, fun _ ↦ rfl, fun _ ↦ rfl, nofun⟩)
  | mask node register => exact hattempt fun changed hchanged ↦ mask_covers hchanged
  | cryst node => exact hattempt fun changed hchanged ↦ cryst_covers hchanged
  | spec =>
    refine hattempt fun changed hchanged ↦ ?_
    obtain ⟨vector, -, rfl⟩ := spec_ok hchanged
    exact hload .d vector
  | bloom =>
    cases lesson with
    | none => exact .refl _ core
    | some lesson => exact hload .c _
  | save path => exact .refl _ core

theorem footprint_of_isStill (core : Core) {instruction : Instruction} (h : instruction.isStill) :
    (core.footprint instruction).vectors = [] ∧ (core.footprint instruction).connections = [] ∧
      core.ground instruction = core.mesh ∧ core.wanted instruction = [] := by
  cases instruction with
  | init clears =>
    cases clears with
    | true => cases h
    | false => exact ⟨rfl, rfl, rfl, rfl⟩
  | mesh id connect => cases h
  | flow source target => cases h
  | cycle count start stop => cases h
  | forge id connect => cases h
  | mask node register => cases h
  | _ => exact ⟨rfl, rfl, rfl, rfl⟩

/-- The mesh resonates after a still instruction as it did before. -/
theorem apply_resonance (core : Core) (budget : Nat) (lesson : Option Lesson)
    {instruction : Instruction} (h : instruction.isStill) :
    ((core.apply budget lesson instruction).result core).mesh.resonance = core.mesh.resonance := by
  obtain ⟨hvectors, hconnections, hground, hwanted⟩ := core.footprint_of_isStill h
  have hcovers : (core.footprint instruction).Covers core
      ((core.apply budget lesson instruction).result core) := by
    refine core.apply_covers budget lesson ?_
    rintro rfl
    cases h
  refine Mesh.resonance_congr ?_ fun id node hnode ↦ ?_
  · have hroom : ¬Exhausts budget (core.ground instruction).ids (core.wanted instruction) := by
      rw [hwanted]
      exact not_exhausts_nil budget _
    rw [apply_ids hroom, hground, hwanted]
    rfl
  · obtain ⟨later, hlater, hpermits⟩ := hcovers.mesh id node hnode
    refine ⟨later, hlater, hpermits.vector ?_, hpermits.connections ?_⟩
    · rw [hvectors]
      exact List.not_mem_nil
    · rw [hconnections]
      exact List.not_mem_nil

end Core

end SpiralMachine
