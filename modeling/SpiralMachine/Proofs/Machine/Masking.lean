import SpiralMachine.Proofs.Core.Masking
import SpiralMachine.Proofs.Machine.NoTrace

/-!
# Masks of a machine

A list of masks that is dispatched, and then once more from its end to its beginning, leaves
everything as it was, whichever of them are faults: a mask undoes itself (`dispatch_mask_mask`), so
that the last one is undone first. By itself the list puts the vectors of registers and nodes in
other places and changes nothing else (`dispatchAll_masks`).
-/

set_option autoImplicit false

namespace SpiralMachine

/-- Steps that undo themselves are undone from the last to the first. -/
theorem foldl_reverse_of_undo {α β : Type} {step : β → α → β} {items : List α}
    (h : ∀ item ∈ items, ∀ state, step (step state item) item = state) (state : β) :
    items.reverse.foldl step (items.foldl step state) = state := by
  induction items generalizing state with
  | nil => rfl
  | cons item rest ih =>
    rw [List.forall_mem_cons] at h
    rw [List.reverse_cons, List.foldl_append]
    calc step (rest.reverse.foldl step (rest.foldl step (step state item))) item
        = step (step state item) item := congrArg (step · item) (ih h.2 _)
      _ = state := h.1 state

theorem Instruction.eq_mask_of_opcode {instruction : Instruction} (h : instruction.opcode = .mask) :
    ∃ node register, instruction = .mask node register := by
  cases instruction with
  | mask node register => exact ⟨node, register, rfl⟩
  | _ => cases h

namespace Machine

/-- What instructions leave that are dispatched one after the other, whatever comes of each. -/
def dispatchAll (flags : Config) (instructions : List Instruction) (start : Effect) : Effect :=
  instructions.foldl
    (fun reached instruction ↦ (reached.machine.dispatch reached.host flags instruction).1) start

theorem dispatch_mask (machine : Machine) (host : Host) (flags : Config) (node : Option String)
    (register : Register) :
    machine.dispatch host flags (.mask node register) =
      machine.settle host flags.maxMeshNodes (.ofExcept (machine.toCore.mask node register)) :=
  rfl

/-- A mask leaves a masked core, and all else as it was. -/
theorem dispatch_mask_effect (machine : Machine) (host : Host) (flags : Config)
    (node : Option String) (register : Register) :
    (machine.dispatch host flags (.mask node register)).1 =
      ⟨{ machine with toCore := machine.toCore.masked node register }, host⟩ := by
  rw [dispatch_mask, Core.masked]
  cases machine.toCore.mask node register <;> rfl

/-- The same mask once more gives everything back. -/
theorem dispatch_mask_mask (machine : Machine) (host : Host) (flags : Config)
    (node : Option String) (register : Register) :
    let done := (machine.dispatch host flags (.mask node register)).1
    (done.machine.dispatch done.host flags (.mask node register)).1 = ⟨machine, host⟩ := by
  dsimp only
  rw [dispatch_mask_effect, dispatch_mask_effect, Core.masked_masked]

/-- Masks in reverse order undo the same masks. -/
theorem dispatchAll_reverse (flags : Config) {masks : List Instruction}
    (h : ∀ mask ∈ masks, mask.opcode = .mask) (start : Effect) :
    dispatchAll flags masks.reverse (dispatchAll flags masks start) = start := by
  unfold dispatchAll
  refine foldl_reverse_of_undo (fun mask hmask state ↦ ?_) start
  obtain ⟨node, register, rfl⟩ := Instruction.eq_mask_of_opcode (h mask hmask)
  exact state.machine.dispatch_mask_mask state.host flags node register

/-- Masks leave a rearranged core, and all else as it was. -/
theorem dispatchAll_rearranges (flags : Config) {masks : List Instruction}
    (h : ∀ mask ∈ masks, mask.opcode = .mask) (start : Effect) :
    ∃ core, dispatchAll flags masks start =
        ⟨{ start.machine with toCore := core }, start.host⟩ ∧
      start.machine.toCore.Rearranges core := by
  induction masks generalizing start with
  | nil => exact ⟨start.machine.toCore, rfl, .refl _⟩
  | cons mask rest ih =>
    rw [List.forall_mem_cons] at h
    obtain ⟨node, register, rfl⟩ := Instruction.eq_mask_of_opcode h.1
    obtain ⟨core, hdone, hrearranges⟩ :=
      ih h.2 (start.machine.dispatch start.host flags (.mask node register)).1
    rw [dispatch_mask_effect] at hdone hrearranges
    refine ⟨core, ?_, (start.machine.toCore.masked_rearranges node register).trans hrearranges⟩
    rw [dispatchAll, List.foldl_cons, dispatch_mask_effect]
    exact hdone

/-- Masks are undone by the same masks in reverse order, whichever of them are faults. By themselves
they rearrange vectors: those of the registers and of the nodes are as many and the same, the nodes
are in their order, and nothing else has changed. Each mask of a node that is there exchanges its
vector and that of the register. -/
theorem dispatchAll_masks (machine : Machine) (host : Host) (flags : Config) :
    (∀ masks : List Instruction, (∀ mask ∈ masks, mask.opcode = .mask) →
      let done := dispatchAll flags masks ⟨machine, host⟩
      dispatchAll flags masks.reverse done = ⟨machine, host⟩ ∧
        ∃ core, done = ⟨{ machine with toCore := core }, host⟩ ∧
          machine.toCore.Rearranges core) ∧
    ∀ node register id found, node.or machine.mesh.lastId? = some id →
      machine.mesh.get? id = some found →
      let done := machine.dispatch host flags (.mask node register)
      done.2 = .applied ∧ done.1.machine.registers.get register = found.vector ∧
        done.1.machine.mesh.get? id =
          some { found with vector := machine.registers.get register } := by
  refine ⟨fun masks hmasks ↦ ?_, fun node register id found hid hfound ↦ ?_⟩
  · exact ⟨dispatchAll_reverse flags hmasks ⟨machine, host⟩,
      dispatchAll_rearranges flags hmasks ⟨machine, host⟩⟩
  have htarget : machine.toCore.target .mask node = .ok id :=
    Core.target_of_mem hid (Mesh.mem_ids_of_get? hfound) .mask
  rw [dispatch_mask, Core.mask_of_target htarget hfound]
  exact ⟨rfl, machine.toCore.get_exchange id found register, Core.get?_exchange hfound register⟩

/-- Four masks, of a node that is named, of the last one, of none that is there, and of the first
node once more with another register. The first of them exchanges the zero vector and the seed. -/
theorem masks_of_two_nodes :
    let linked : Node :=
      { Node.new .zero with memory := [("note", .string "kept")], connections := ["b"] }
    let machine := { Machine.new .default .none with
      mesh := .ofList [("a", linked), ("b", .new SpiralVector.seed.rotate)]
      registers := RegisterFile.zero.set .a .seed }
    let masks : List Instruction :=
      [.mask (some "a") .a, .mask none .b, .mask (some "lost") .c, .mask (some "a") .b]
    let done := dispatchAll .default masks ⟨machine, ⟨.empty, [], 0⟩⟩
    let first := machine.dispatch ⟨.empty, [], 0⟩ .default (.mask (some "a") .a)
    (∀ mask ∈ masks, mask.opcode = .mask) ∧
      dispatchAll .default masks.reverse done = ⟨machine, ⟨.empty, [], 0⟩⟩ ∧
      done.machine.toCore.vectors = machine.toCore.vectors ∧
      machine.mesh.get? "a" = some linked ∧ first.2 = .applied ∧
      first.1.machine.registers.get .a = .zero ∧
      first.1.machine.mesh.get? "a" = some { linked with vector := .seed } := by
  intro linked machine masks done first
  have hmasks : ∀ mask ∈ masks, mask.opcode = .mask := by simp [masks, Instruction.opcode]
  have hlinked : machine.mesh.get? "a" = some linked := rfl
  obtain ⟨hall, hone⟩ := machine.dispatchAll_masks ⟨.empty, [], 0⟩ .default
  obtain ⟨hreverse, core, hdone, hrearranges⟩ := hall masks hmasks
  obtain ⟨happlied, hregister, hnode⟩ := hone (some "a") .a "a" linked rfl hlinked
  have hvectors : done.machine.toCore.vectors = machine.toCore.vectors := by
    change done = _ at hdone
    rw [hdone]
    exact hrearranges.vectors
  exact ⟨hmasks, hreverse, hvectors, hlinked, happlied, hregister, hnode⟩

end Machine

end SpiralMachine
