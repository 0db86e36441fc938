import SpiralMachine.Proofs.Core.Change

/-!
# What every instruction keeps of nodes and vectors

Some properties of nodes and vectors are kept by every instruction, since they are kept in each of
the few ways in which instructions make nodes and vectors (`Closed`). If all nodes of the
mesh and all registers have such a property, and the last lesson has, then so it is after
any instruction (`apply_every`).
-/

set_option autoImplicit false

namespace SpiralMachine

/-! ### All nodes of a mesh -/

namespace Mesh

variable {holds : Node → Prop}

/-- All nodes of a mesh have a property. -/
def Every (holds : Node → Prop) (mesh : Mesh) : Prop := ∀ entry ∈ mesh.entries, holds entry.2

theorem every_empty : empty.Every holds := fun _ hentry ↦ nomatch hentry

theorem Every.mapNodes {mesh : Mesh} (h : mesh.Every holds) {change : String → Node → Node}
    (hchange : ∀ id node, holds node → holds (change id node)) :
    (mesh.mapNodes change).Every holds := by
  intro entry hentry
  obtain ⟨old, hold, rfl⟩ := List.mem_map.mp hentry
  exact hchange old.1 old.2 (h old hold)

theorem Every.modify {mesh : Mesh} (h : mesh.Every holds) (id : String) {change : Node → Node}
    (hchange : ∀ node, holds node → holds (change node)) : (mesh.modify id change).Every holds := by
  refine h.mapNodes fun other node hnode ↦ ?_
  split
  · exact hchange node hnode
  · exact hnode

theorem Every.insert {mesh : Mesh} (h : mesh.Every holds) (id : String) {node : Node}
    (hnode : holds node) : (mesh.insert id node).Every holds := by
  unfold Mesh.insert
  split
  · exact h.modify id fun _ _ ↦ hnode
  · intro entry hentry
    rcases List.mem_append.mp hentry with hold | hnew
    · exact h entry hold
    · rw [List.mem_singleton.mp hnew]
      exact hnode

theorem Every.foldl_insert {mesh : Mesh} (h : mesh.Every holds) {entries : List (String × Node)}
    (hentries : ∀ entry ∈ entries, holds entry.2) :
    (entries.foldl (fun mesh (id, node) ↦ mesh.insert id node) mesh).Every holds := by
  induction entries generalizing mesh with
  | nil => exact h
  | cons entry rest ih =>
    rw [List.forall_mem_cons] at hentries
    exact ih (h.insert entry.1 hentries.1) hentries.2

theorem every_ofList {entries : List (String × Node)} (h : ∀ entry ∈ entries, holds entry.2) :
    (ofList entries).Every holds :=
  every_empty.foldl_insert h

/-- The node under an id is one of the mesh. -/
theorem Every.of_get? {mesh : Mesh} (h : mesh.Every holds) {id : String} {node : Node}
    (hget : mesh.get? id = some node) : holds node :=
  h (id, node) (Keyed.mem_of_lookup hget)

end Mesh

/-! ### Instructions -/

namespace Core

/-- Properties of nodes and of vectors that are kept in all the ways in which instructions make
nodes and vectors. -/
structure Closed (holdsNode : Node → Prop) (holdsVector : SpiralVector → Prop) : Prop where
  zero : holdsVector .zero
  seed : holdsVector .seed
  rotate : ∀ {v}, holdsVector v → holdsVector v.rotate
  goldenWrap : ∀ {v}, holdsVector v → holdsVector v.goldenWrap
  wrappedSum : ∀ {v w}, holdsVector v → holdsVector w → holdsVector (v.wrappedSum w)
  clamp : ∀ {v low high}, low.isFinite → high.isFinite → holdsVector v →
    holdsVector (v.clamp low high)
  /-- Some vectors are stored only if they are finite. -/
  checked : ∀ {v : SpiralVector}, v.isFinite → holdsVector v
  new : ∀ {v}, holdsVector v → holdsNode (.new v)
  connect : ∀ {node} (target), holdsNode node → holdsNode (node.connect target)
  vector : ∀ {node}, holdsNode node → holdsVector node.vector
  move : ∀ {node v}, holdsNode node → holdsVector v → holdsNode { node with vector := v }
  score : ∀ {node : Node} (v), holdsNode node →
    holdsNode { node with resonance := Resonance.pair node.vector v }
  remember : ∀ {node : Node} (v : SpiralVector) (depth : UInt32), holdsNode node →
    holdsNode { node with
      memory := Keyed.insert "crystal_depth" (.integer depth.toNat)
        (Keyed.insert "crystal" (.reals v.toList) node.memory) }

/-- All nodes of the mesh and all registers have a property. -/
structure Every (holdsNode : Node → Prop) (holdsVector : SpiralVector → Prop) (core : Core) :
    Prop where
  mesh : core.mesh.Every holdsNode
  registers : ∀ register, holdsVector (core.registers.get register)

section Instructions

variable {holdsNode : Node → Prop} {holdsVector : SpiralVector → Prop} {core changed : Core}

theorem Closed.connectAll (hclosed : Closed holdsNode holdsVector) {node : Node}
    (h : holdsNode node) (targets : List String) : holdsNode (node.connectAll targets) := by
  induction targets generalizing node with
  | nil => exact h
  | cons target rest ih => exact ih (hclosed.connect target h)

theorem Closed.rotateBy (hclosed : Closed holdsNode holdsVector) {v : SpiralVector}
    (h : holdsVector v) (count : Nat) : holdsVector (v.rotateBy count) := by
  induction count generalizing v with
  | zero => exact h
  | succ count ih => exact ih (hclosed.rotate h)

/-- A register takes a vector with the property. -/
theorem Every.setRegister (h : core.Every holdsNode holdsVector) (register : Register)
    {vector : SpiralVector} (hvector : holdsVector vector) :
    (core.setRegister register vector).Every holdsNode holdsVector := by
  refine ⟨h.mesh, fun other ↦ ?_⟩
  show holdsVector ((core.registers.set register vector).get other)
  rw [RegisterFile.get_set]
  split
  · exact hvector
  · exact h.registers other

theorem Every.withMesh (h : core.Every holdsNode holdsVector) {mesh : Mesh}
    (hmesh : mesh.Every holdsNode) : Every holdsNode holdsVector { core with mesh } :=
  ⟨hmesh, h.registers⟩

theorem initialise_every (hclosed : Closed holdsNode holdsVector)
    (h : core.Every holdsNode holdsVector) (budget : Nat) (clears : Bool) :
    ((core.initialise budget clears).result core).Every holdsNode holdsVector := by
  have hregisters (register : Register) :
      holdsVector ((RegisterFile.zero.set .a .seed).get register) := by
    cases register with
    | a => exact hclosed.seed
    | _ => exact hclosed.zero
  unfold initialise
  dsimp only
  split
  · exact ⟨h.mesh, hregisters⟩
  · split
    · exact ⟨Mesh.every_empty.insert originId (hclosed.new hclosed.seed), hregisters⟩
    · exact ⟨Mesh.every_empty, hregisters⟩

theorem place_every (hclosed : Closed holdsNode holdsVector)
    (h : core.Every holdsNode holdsVector) (budget : Nat) (id : String) {vector : SpiralVector}
    (hvector : holdsVector vector) (added initial : List String) :
    ((core.place budget id vector added initial).result core).Every holdsNode holdsVector := by
  unfold place
  split
  · exact h.withMesh (h.mesh.modify id fun node hnode ↦
      hclosed.connectAll (hclosed.move hnode hvector) added)
  · split
    · exact h.withMesh (h.mesh.insert id (hclosed.connectAll (hclosed.new hvector) initial))
    · exact h

theorem bound_every (hclosed : Closed holdsNode holdsVector)
    (h : core.Every holdsNode holdsVector) {register : Register} {min max : Float}
    (hbound : core.bound register min max = .ok changed) : changed.Every holdsNode holdsVector := by
  obtain ⟨hmin, hmax, rfl⟩ := bound_ok hbound
  exact h.setRegister register (hclosed.clamp hmin hmax (h.registers register))

theorem flow_every (hclosed : Closed holdsNode holdsVector)
    (h : core.Every holdsNode holdsVector) {source target : Option String}
    (hflow : core.flow source target = .ok changed) : changed.Every holdsNode holdsVector := by
  obtain ⟨start, goal, vector, -, -, hfinite, rfl⟩ := flow_ok hflow
  have hmoved : (core.mesh.modify goal fun node ↦ { node with vector }).Every holdsNode :=
    h.mesh.modify goal fun node hnode ↦ hclosed.move hnode (hclosed.checked hfinite)
  refine h.withMesh ?_
  split
  · exact hmoved
  · exact hmoved.modify start fun node hnode ↦ hclosed.connect goal hnode

/-- The best of what was found and several more is what was found or one of them. -/
theorem mem_of_foldl_best {scored : List (Float × SpiralVector)}
    {found : Option (Float × SpiralVector)} {top : Float × SpiralVector}
    (h : scored.foldl
      (fun found candidate ↦
        match found with
        | none => some candidate
        | some top => if candidate.1 > top.1 then some candidate else some top)
      found = some top) : found = some top ∨ top ∈ scored := by
  induction scored generalizing found with
  | nil => exact .inl h
  | cons candidate rest ih =>
    rcases ih h with hnext | hmem
    · dsimp only at hnext
      split at hnext
      · cases hnext
        exact .inr List.mem_cons_self
      · split at hnext
        · cases hnext
          exact .inr List.mem_cons_self
        · exact .inl hnext
    · exact .inr (List.mem_cons_of_mem _ hmem)

/-- The best of several is one of them. -/
theorem mem_of_best {scored : List (Float × SpiralVector)} {top : Float × SpiralVector}
    (h : best scored = some top) : top ∈ scored :=
  (mem_of_foldl_best h).resolve_left nofun

theorem seek_every (hclosed : Closed holdsNode holdsVector)
    (h : core.Every holdsNode holdsVector) {node : Option String} {register : Register}
    (hseek : core.seek node register = .ok changed) : changed.Every holdsNode holdsVector := by
  unfold seek at hseek
  dsimp only at hseek
  split at hseek
  · split at hseek
    · rename_i found hget
      cases hseek
      exact h.setRegister register (hclosed.vector (h.mesh.of_get? hget))
    · cases hseek
  · split at hseek
    · rename_i score vector hbest
      cases hseek
      obtain ⟨node, hnode, heq⟩ := List.mem_map.mp (mem_of_best hbest)
      obtain ⟨entry, hentry, rfl⟩ := List.mem_map.mp hnode
      cases heq
      exact h.setRegister register (hclosed.vector (h.mesh entry hentry))
    · cases hseek

theorem cycleNode?_every (hclosed : Closed holdsNode holdsVector) {mesh next : Mesh}
    (h : mesh.Every holdsNode) {budget count index : Nat} {seed : SpiralVector}
    (hseed : holdsVector seed) (hnext : cycleNode? mesh budget seed count index = some next) :
    next.Every holdsNode := by
  have hrotate : ∀ node, holdsNode node →
      holdsNode { node with vector := node.vector.rotateBy count } :=
    fun node hnode ↦ hclosed.move hnode (hclosed.rotateBy (hclosed.vector hnode) count)
  unfold cycleNode? at hnext
  dsimp only at hnext
  split at hnext
  · cases hnext
    exact h.modify _ hrotate
  · split at hnext
    · cases hnext
      exact (h.insert _ (hclosed.connectAll (hclosed.new hseed) _)).modify _ hrotate
    · cases hnext

theorem cycleNodes_every (hclosed : Closed holdsNode holdsVector) {mesh : Mesh}
    (h : mesh.Every holdsNode) (budget : Nat) {seed : SpiralVector} (hseed : holdsVector seed)
    (count length index : Nat) :
    (cycleNodes budget seed count length index mesh).1.Every holdsNode := by
  induction length generalizing mesh index with
  | zero => exact h
  | succ length ih =>
    unfold cycleNodes
    split
    · rename_i next hnext
      exact ih (cycleNode?_every hclosed h hseed hnext) (index + 1)
    · exact h

theorem cycle_every (hclosed : Closed holdsNode holdsVector)
    (h : core.Every holdsNode holdsVector) (budget : Nat) (count : UInt32) (start stop : Nat) :
    ((core.cycle budget count start stop).result core).Every holdsNode holdsVector := by
  have hnodes := cycleNodes_every hclosed h.mesh budget (h.registers .a) count.toNat
    (stop - start) start
  change (cycleNodes budget core.registers.a count.toNat (stop - start) start core.mesh).1.Every
    holdsNode at hnodes
  unfold cycle
  split
  · exact h
  · split <;> rename_i hmesh <;> rw [hmesh] at hnodes <;> exact h.withMesh hnodes

theorem mask_every (hclosed : Closed holdsNode holdsVector)
    (h : core.Every holdsNode holdsVector) {node : Option String} {register : Register}
    (hmask : core.mask node register = .ok changed) : changed.Every holdsNode holdsVector := by
  obtain ⟨id, found, -, hfound, rfl⟩ := mask_ok hmask
  refine Every.setRegister (h.withMesh ?_) register (hclosed.vector (h.mesh.of_get? hfound))
  exact h.mesh.modify id fun node hnode ↦ hclosed.move hnode (h.registers register)

theorem cryst_every (hclosed : Closed holdsNode holdsVector)
    (h : core.Every holdsNode holdsVector) {node : Option String}
    (hcryst : core.cryst node = .ok changed) : changed.Every holdsNode holdsVector := by
  obtain ⟨id, -, rfl⟩ := cryst_ok hcryst
  exact h.withMesh (h.mesh.modify id fun node hnode ↦
    hclosed.remember core.registers.a core.spiralDepth hnode)

theorem spec_every (hclosed : Closed holdsNode holdsVector)
    (h : core.Every holdsNode holdsVector) (hspec : core.spec = .ok changed) :
    changed.Every holdsNode holdsVector := by
  obtain ⟨spectrum, hfinite, rfl⟩ := spec_ok hspec
  exact h.setRegister .d (hclosed.checked hfinite)

/-- Every instruction keeps a closed property of all nodes and registers, if the last lesson has
it. -/
theorem apply_every (hclosed : Closed holdsNode holdsVector)
    (h : core.Every holdsNode holdsVector) (budget : Nat) {lesson : Option Lesson}
    (hlesson : ∀ last, lesson = some last → holdsVector last.vector) (instruction : Instruction) :
    ((core.apply budget lesson instruction).result core).Every holdsNode holdsVector := by
  have hattempt {attempt : Except Fault Core}
      (hok : ∀ changed, attempt = .ok changed → changed.Every holdsNode holdsVector) :
      ((Change.ofExcept attempt).result core).Every holdsNode holdsVector :=
    result_ofExcept (Every holdsNode holdsVector) h hok
  have hregister := h.registers
  cases instruction with
  | init clears => exact initialise_every hclosed h budget clears
  | mesh id connect => exact place_every hclosed h budget _ (hregister .a) _ _
  | phi register => exact h.setRegister register (hclosed.goldenWrap (hregister register))
  | rot register => exact h.setRegister register (hclosed.rotate (hregister register))
  | bound register min max => exact hattempt fun changed hchanged ↦ bound_every hclosed h hchanged
  | flow source target => exact hattempt fun changed hchanged ↦ flow_every hclosed h hchanged
  | seek node register => exact hattempt fun changed hchanged ↦ seek_every hclosed h hchanged
  | spiral increment register =>
    have hturned := h.setRegister register
      (hclosed.rotateBy (hregister register) increment.toNat)
    exact ⟨h.mesh, hturned.registers⟩
  | cycle count start stop => exact cycle_every hclosed h budget count start stop
  | forge id connect =>
    exact place_every hclosed h budget _ (hclosed.wrappedSum (hregister .a) (hregister .b)) _ _
  | sync here remote =>
    exact h.withMesh (h.mesh.mapNodes fun id node hnode ↦ hclosed.score core.registers.a hnode)
  | mask node register => exact hattempt fun changed hchanged ↦ mask_every hclosed h hchanged
  | cryst node => exact hattempt fun changed hchanged ↦ cryst_every hclosed h hchanged
  | spec => exact hattempt fun changed hchanged ↦ spec_every hclosed h hchanged
  | bloom =>
    cases lesson with
    | none => exact h
    | some last => exact h.setRegister .c (hclosed.rotate (hlesson last rfl))
  | save path => exact h

end Instructions

end Core

end SpiralMachine
