import Mathlib.Algebra.Order.Group.Multiset
import Mathlib.Tactic.Abel
import SpiralMachine.Proofs.Core.Change
import SpiralMachine.Proofs.Mesh.Lookup

/-!
# Masks

A mask exchanges the vectors of a node and a register, or is a fault (`masked_eq`). Which of both it
is, and which node it takes, is settled by the ids of the mesh, and these stay. So the same mask
once more gives everything back (`masked_masked`). Either way vectors have changed their places and
nothing else has changed (`masked_rearranges`): what a register wins a node loses.
-/

set_option autoImplicit false

namespace SpiralMachine

namespace RegisterFile

/-- The vectors of the registers. -/
def vectors (file : RegisterFile) : Multiset SpiralVector := Register.all.map file.get

/-- A register wins the vector that is written to it, for the one that it held. -/
theorem vectors_set (file : RegisterFile) (register : Register) (vector : SpiralVector) :
    (file.set register vector).vectors + {file.get register} = file.vectors + {vector} := by
  have hsum (other : RegisterFile) :
      other.vectors = {other.a} + {other.b} + {other.c} + {other.d} := rfl
  rw [hsum, hsum]
  cases register <;> dsimp only [set, get] <;> abel

/-- The vector that a register held is given back to it. -/
theorem set_set_get (file : RegisterFile) (register : Register) (vector : SpiralVector) :
    (file.set register vector).set register (file.get register) = file := by
  cases register <;> rfl

end RegisterFile

namespace Mesh

/-- The vectors of the nodes. -/
def vectors (mesh : Mesh) : Multiset SpiralVector := mesh.nodes.map Node.vector

/-- A node wins the vector that it is given, for the one that it had. -/
theorem vectors_modify {mesh : Mesh} {id : String} {node : Node} (h : mesh.get? id = some node)
    (vector : SpiralVector) :
    (mesh.modify id fun node ↦ { node with vector }).vectors + {node.vector} =
      mesh.vectors + {vector} := by
  obtain ⟨before, after, hentries, hmodify⟩ := exists_entries_modify h
  have hsum (changed : Mesh) (last : Node)
      (hchanged : changed.entries = before ++ (id, last) :: after) :
      changed.vectors = ((before.map (·.2.vector) : List SpiralVector) : Multiset SpiralVector) +
        ({last.vector} + (after.map (·.2.vector) : List SpiralVector)) := by
    rw [vectors, nodes, hchanged, List.map_map, List.map_append, List.map_cons,
      ← Multiset.coe_add, ← Multiset.cons_coe, ← Multiset.singleton_add]
    rfl
  rw [hsum _ _ (hmodify _), hsum mesh node hentries]
  abel

end Mesh

namespace Core

/-- The vectors of a core, those of its registers and those of its nodes. -/
def vectors (core : Core) : Multiset SpiralVector := core.registers.vectors + core.mesh.vectors

/-- Cores that differ in the places of their vectors at most. -/
structure Rearranges (core changed : Core) : Prop where
  vectors : changed.vectors = core.vectors
  ids : changed.mesh.ids = core.mesh.ids
  nodes : ∀ id node, core.mesh.get? id = some node →
    ∃ vector, changed.mesh.get? id = some { node with vector }
  spiralDepth : changed.spiralDepth = core.spiralDepth

theorem Rearranges.refl (core : Core) : core.Rearranges core :=
  ⟨rfl, rfl, fun _ node hnode ↦ ⟨node.vector, hnode⟩, rfl⟩

theorem Rearranges.trans {first second third : Core} (h : first.Rearranges second)
    (hnext : second.Rearranges third) : first.Rearranges third where
  vectors := hnext.vectors.trans h.vectors
  ids := hnext.ids.trans h.ids
  nodes := fun id node hnode ↦ by
    obtain ⟨vector, hvector⟩ := h.nodes id node hnode
    obtain ⟨last, hlast⟩ := hnext.nodes id _ hvector
    exact ⟨last, hlast⟩
  spiralDepth := hnext.spiralDepth.trans h.spiralDepth

/-! ### Exchanging two vectors -/

/-- The core with the vectors of a register and a node, which stands under `id`, exchanged. -/
def exchange (core : Core) (id : String) (node : Node) (register : Register) : Core where
  mesh := core.mesh.modify id fun node ↦ { node with vector := core.registers.get register }
  registers := core.registers.set register node.vector
  spiralDepth := core.spiralDepth

section Exchange

variable {core : Core} {id : String} {node : Node}

theorem get?_exchange (h : core.mesh.get? id = some node) (register : Register) :
    (core.exchange id node register).mesh.get? id =
      some { node with vector := core.registers.get register } := by
  rw [exchange, Mesh.get?_modify, if_pos rfl, h, Option.map_some]

theorem get_exchange (core : Core) (id : String) (node : Node) (register : Register) :
    (core.exchange id node register).registers.get register = node.vector := by
  rw [exchange, RegisterFile.get_set, if_pos rfl]

/-- Both vectors are won, and both are lost. -/
theorem exchange_vectors (h : core.mesh.get? id = some node) (register : Register) :
    (core.exchange id node register).vectors = core.vectors := by
  let held := core.registers.get register
  have hregisters := core.registers.vectors_set register node.vector
  have hmesh := Mesh.vectors_modify h held
  refine add_right_cancel (b := {held} + {node.vector}) ?_
  calc (core.exchange id node register).vectors + ({held} + {node.vector})
      = ((core.exchange id node register).registers.vectors + {held}) +
          ((core.exchange id node register).mesh.vectors + {node.vector}) :=
        add_add_add_comm ..
    _ = (core.registers.vectors + {node.vector}) + (core.mesh.vectors + {held}) :=
        congrArg₂ (· + ·) hregisters hmesh
    _ = core.vectors + ({node.vector} + {held}) := add_add_add_comm ..
    _ = core.vectors + ({held} + {node.vector}) :=
        congrArg (core.vectors + ·) (add_comm ..)

theorem exchange_rearranges (h : core.mesh.get? id = some node) (register : Register) :
    core.Rearranges (core.exchange id node register) where
  vectors := exchange_vectors h register
  ids := Mesh.ids_modify ..
  nodes := fun other found hfound ↦ by
    rw [exchange, Mesh.get?_modify, hfound]
    split
    · exact ⟨_, rfl⟩
    · exact ⟨found.vector, rfl⟩
  spiralDepth := rfl

/-- Exchanged once more, the vectors are where they were. -/
theorem exchange_exchange (h : core.mesh.get? id = some node) (register : Register) :
    (core.exchange id node register).exchange id
      { node with vector := core.registers.get register } register = core := by
  have hregisters := core.registers.set_set_get register node.vector
  have hmesh : (core.exchange id node register).mesh.modify id
      (fun other ↦ { other with vector := node.vector }) = core.mesh := by
    rw [exchange, Mesh.modify_modify]
    refine Mesh.modify_eq_self fun found hfound ↦ ?_
    cases h.symm.trans hfound
    rfl
  unfold exchange at hmesh
  rw [exchange, get_exchange, exchange, hmesh, hregisters]

end Exchange

/-! ### A mask -/

/-- What a mask leaves of a core. -/
def masked (core : Core) (node : Option String) (register : Register) : Core :=
  (Change.ofExcept (core.mask node register)).result core

section Mask

variable {core : Core} {node : Option String} {register : Register}

/-- A node that is there is the target, if it is named or is the last one and none is named. -/
theorem target_of_mem {id : String} (hid : node.or core.mesh.lastId? = some id)
    (hmem : id ∈ core.mesh.ids) (op : Opcode) : core.target op node = .ok id := by
  cases node with
  | some named =>
    cases hid
    exact if_pos (Mesh.contains_iff.mpr hmem)
  | none =>
    have hlast : core.mesh.lastId? = some id := hid
    rw [target, hlast]
    rfl

/-- The target of an instruction is settled by the ids of the mesh. -/
theorem target_congr {changed : Core} (h : changed.mesh.ids = core.mesh.ids) (op : Opcode)
    (node : Option String) : changed.target op node = core.target op node := by
  unfold target Mesh.contains Mesh.lastId?
  rw [h]

/-- A mask with a target exchanges its vector and that of the register. -/
theorem mask_of_target {id : String} {found : Node} (h : core.target .mask node = .ok id)
    (hfound : core.mesh.get? id = some found) :
    core.mask node register = .ok (core.exchange id found register) := by
  rw [mask, h]
  dsimp only [bind, Except.bind]
  rw [hfound]
  rfl

theorem masked_of_target {id : String} {found : Node} (h : core.target .mask node = .ok id)
    (hfound : core.mesh.get? id = some found) :
    core.masked node register = core.exchange id found register := by
  rw [masked, mask_of_target h hfound]
  rfl

/-- A mask without a target leaves the core as it was. -/
theorem masked_of_fault {cause : Fault} (h : core.target .mask node = .error cause) :
    core.masked node register = core := by
  rw [masked, mask, h]
  rfl

/-- A mask exchanges two vectors, or leaves the core as it was. -/
theorem masked_eq (core : Core) (node : Option String) (register : Register) :
    (∃ cause, core.target .mask node = .error cause ∧ core.masked node register = core) ∨
      ∃ id found, core.target .mask node = .ok id ∧ core.mesh.get? id = some found ∧
        core.masked node register = core.exchange id found register := by
  cases htarget : core.target .mask node with
  | error cause => exact .inl ⟨cause, rfl, masked_of_fault htarget⟩
  | ok id =>
    obtain ⟨found, hfound⟩ :=
      Option.isSome_iff_exists.mp (Mesh.get?_isSome_iff.mpr (target_ok htarget).2)
    exact .inr ⟨id, found, rfl, hfound, masked_of_target htarget hfound⟩

theorem masked_rearranges (core : Core) (node : Option String) (register : Register) :
    core.Rearranges (core.masked node register) := by
  rcases core.masked_eq node register with ⟨-, -, hmasked⟩ | ⟨id, found, -, hfound, hmasked⟩
  · rw [hmasked]
    exact .refl core
  · rw [hmasked]
    exact exchange_rearranges hfound register

/-- The same mask once more gives everything back: it has the same target, or none as before. -/
theorem masked_masked (core : Core) (node : Option String) (register : Register) :
    (core.masked node register).masked node register = core := by
  have htarget := target_congr (core.masked_rearranges node register).ids .mask node
  obtain ⟨cause, hcause, hmasked⟩ | ⟨id, found, hid, hfound, hmasked⟩ :=
    core.masked_eq node register
  · rw [masked_of_fault (htarget.trans hcause), hmasked]
  · rw [hmasked] at htarget ⊢
    rw [masked_of_target (htarget.trans hid) (get?_exchange hfound register),
      exchange_exchange hfound]

end Mask

end Core

end SpiralMachine
