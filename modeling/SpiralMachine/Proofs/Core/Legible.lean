import SpiralMachine.Proofs.Crystal.Parts

/-!
# Memories stay legible

Only `cryst` writes into the memory of a node, and what it writes is a list of numbers and a
whole number of 32 bits. So every instruction keeps the memories of a mesh such that the
reader can follow them (`apply_legible`). A crystal that is read from a text has such memories
to begin with (`legible_of_ofText?`).
-/

set_option autoImplicit false

namespace SpiralMachine

open Json (Document)

namespace Node

/-- Whether a node is legible depends on its memory alone. -/
theorem Legible.of_memory {node other : Node} (h : node.Legible)
    (hmemory : other.memory = node.memory) : other.Legible := by
  unfold Legible
  rw [hmemory]
  exact h

theorem legible_new (vector : SpiralVector) : (new vector).Legible :=
  ⟨Keyed.sorted_nil, fun member hmember ↦ by cases hmember⟩

/-- What `cryst` writes into a memory can be read back. -/
theorem Legible.remember {node : Node} (h : node.Legible) (v : SpiralVector) (depth : UInt32) :
    Legible { node with
      memory := Keyed.insert "crystal_depth" (.integer depth.toNat)
        (Keyed.insert "crystal" (.reals v.toList) node.memory) } := by
  obtain ⟨hsorted, hmembers⟩ := h
  refine ⟨Keyed.sorted_insert _ _ (Keyed.sorted_insert _ _ hsorted), fun member hmember ↦ ?_⟩
  rcases Keyed.mem_insert hmember with rfl | hmember
  · have hdepth := depth.toNat_lt
    rw [Json.Readable]
    omega
  · rcases Keyed.mem_insert hmember with rfl | hmember
    · exact Json.readable_reals _ _
    · exact hmembers member hmember

end Node

theorem Mesh.legible_empty : Mesh.empty.Legible := every_empty

namespace Core

/-- No instruction makes a memory that is not legible, with whatever vectors. -/
theorem closed_legible : Closed Node.Legible fun _ ↦ True where
  zero := trivial
  seed := trivial
  rotate _ := trivial
  goldenWrap _ := trivial
  wrappedSum _ _ := trivial
  clamp _ _ _ := trivial
  checked _ := trivial
  new _ := Node.legible_new _
  connect target h := h.of_memory (by unfold Node.connect; split <;> rfl)
  vector _ := trivial
  move h _ := h.of_memory rfl
  score _ h := h.of_memory rfl
  remember v depth h := h.remember v depth

/-- Every instruction keeps the memories of a mesh legible. -/
theorem apply_legible {core : Core} (h : core.mesh.Legible) (budget : ℕ) (lesson : Option Lesson)
    (instruction : Instruction) :
    ((core.apply budget lesson instruction).result core).mesh.Legible :=
  (apply_every closed_legible ⟨h, fun _ ↦ trivial⟩ budget (fun _ _ ↦ trivial) instruction).mesh

end Core

/-! ### Crystals -/

/-- A node that is read has a memory that can be read again. -/
theorem Node.legible_of_ofDocument? {document : Document} {node : Node}
    (h : ofDocument? (Json.depthLimit - 2) document = some node) : node.Legible := by
  obtain ⟨-, ⟨memory, hmemory⟩, -⟩ := parts_of_ofDocument? h
  cases memory with
  | none => exact (legible_new .zero).of_memory (Option.some.inj hmemory).symm
  | some document =>
    change memory? _ document = some node.memory at hmemory
    unfold memory? at hmemory
    split at hmemory
    · rename_i hread
      cases hmemory
      exact Json.readable_of_ofDocument? hread
    · cases hmemory

/-- A crystal that is read from a text has memories that can be read again. -/
theorem Crystal.legible_of_ofText? {text : String} {crystal : Crystal}
    (h : ofText? text = some crystal) : crystal.mesh.Legible := fun entry hentry ↦ by
  obtain ⟨document, hdocument⟩ := (parts_of_ofText? h).1 entry hentry
  exact Node.legible_of_ofDocument? hdocument

end SpiralMachine
