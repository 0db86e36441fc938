import SpiralMachine.Proofs.Core.Change
import SpiralMachine.Proofs.InPlace
import SpiralMachine.Proofs.Mesh.Lookup

/-!
# Instructions in place

`Core.apply` says what an instruction makes of a core as one value. Here each instruction is a
program that reads and writes the core one part at a time: FLOW moves a vector and then adds a
connection, MASK writes a node and then a register, CYCLE makes and turns one node after the other.
Such a program could stop anywhere and leave a core that is partly changed. `carry_run` says where
it does: it comes to what `Core.apply` makes, a fault leaves the core as it was, and only an
exhausted node budget leaves what was done before it.
-/

set_option autoImplicit false

namespace SpiralMachine

/-- What stops an instruction before its end. -/
inductive Interrupt where
  | fault (cause : Fault)
  | fatal (error : RunError)

/-- A program that reads and writes a core. What it has written stays written if it stops. -/
abbrev Handler := EStateM Interrupt Core

/-- What a change comes to in place: a fault leaves the core as it was. -/
def Change.inPlace (core : Core) (budget : Nat) : Change → EStateM.Result Interrupt Core Unit
  | .applied changed => .ok () changed
  | .fault cause => .error (.fault cause) core
  | .full changed => .error (.fatal (.capacityExceeded changed.mesh.size budget)) changed

namespace RegisterFile

theorem modify_modify (file : RegisterFile) (register : Register)
    (first second : SpiralVector → SpiralVector) :
    (file.modify register first).modify register second =
      file.modify register (second ∘ first) := by
  cases register <;> rfl

theorem modify_id (file : RegisterFile) (register : Register) : file.modify register id = file := by
  cases register <;> rfl

end RegisterFile

namespace Handler

/-! ### Reading and writing -/

/-- Stops at a fault. -/
def attempt {α : Type} : Except Fault α → Handler α
  | .ok value => pure value
  | .error cause => throw (.fault cause)

/-- What there is, or a fault. -/
def require {α : Type} (found : Option α) (cause : Fault) : Handler α :=
  attempt (found.elim (.error cause) .ok)

/-- Stops if the mesh cannot have a node under `id`. -/
def checkRoom (budget : Nat) (id : String) : Handler Unit := do
  let mesh := (← get).mesh
  if Core.admits mesh budget id then pure ()
  else throw (.fatal (.capacityExceeded mesh.size budget))

def changeMesh (change : Mesh → Mesh) : Handler Unit :=
  modify fun core ↦ { core with mesh := change core.mesh }

def changeNode (id : String) (change : Node → Node) : Handler Unit :=
  changeMesh (·.modify id change)

def moveNode (id : String) (vector : SpiralVector) : Handler Unit :=
  changeNode id fun node ↦ { node with vector }

def remember (id key : String) (value : Json) : Handler Unit :=
  changeNode id fun node ↦ { node with memory := Keyed.insert key value node.memory }

def hold (register : Register) (vector : SpiralVector) : Handler Unit :=
  modify (·.setRegister register vector)

def changeRegister (register : Register) (change : SpiralVector → SpiralVector) : Handler Unit := do
  hold register (change ((← get).registers.get register))

/-- Does the same a number of times. -/
def times : Nat → Handler Unit → Handler Unit
  | 0, _ => pure ()
  | count + 1, handler => do
    handler
    times count handler

/-! ### The instructions -/

def initialise (budget : Nat) (clears : Bool) : Handler Unit := do
  modify fun core ↦ { core with registers := .zero }
  hold .a .seed
  if clears then do
    changeMesh fun _ ↦ .empty
    checkRoom budget Core.originId
    let seed := (← get).registers.get .a
    changeMesh (·.insert Core.originId (.new seed))
  else pure ()

def place (budget : Nat) (id : String) (vector : SpiralVector) (added initial : List String) :
    Handler Unit := do
  if (← get).mesh.contains id then do
    moveNode id vector
    added.forM fun target ↦ changeNode id (·.connect target)
  else do
    checkRoom budget id
    changeMesh (·.insert id ((Node.new vector).connectAll initial))

def link (budget : Nat) (id : Option String) (connect : Option (List String)) : Handler Unit := do
  let core ← get
  place budget (id.getD (core.mesh.nextId "node")) core.registers.a (connect.getD [])
    (connect.getD core.mesh.lastId?.toList)

def forge (budget : Nat) (id : Option String) (connect : List String) : Handler Unit := do
  let core ← get
  place budget (id.getD (core.mesh.nextId "forge"))
    (core.registers.a.wrappedSum core.registers.b) connect connect

def bound (register : Register) (min max : Float) : Handler Unit :=
  if !min.isFinite || !max.isFinite || min > max then throw (.fault (.invalidBounds min max))
  else changeRegister register (·.clamp min max)

def flow (source target : Option String) : Handler Unit := do
  let mesh := (← get).mesh
  let source ← require (source.or mesh.firstId?) (.emptyMesh .flow)
  let target ← require (target.or mesh.lastId?) (.emptyMesh .flow)
  let origin ← require (mesh.get? source) (.nodeNotFound source)
  let node ← require (mesh.get? target) (.nodeNotFound target)
  let vector ← attempt (Core.finite .flow (node.vector.blend origin.vector 0.5))
  moveNode target vector
  if source = target then pure () else changeNode source (·.connect target)

def seek : Option String → Register → Handler Unit
  | some id, register => do
    let node ← require ((← get).mesh.get? id) (.nodeNotFound id)
    hold register node.vector
  | none, register => do
    let core ← get
    let query := core.registers.get register
    let scored := core.mesh.nodes.map fun node ↦ (Resonance.pair node.vector query, node.vector)
    let found ← require (Core.best scored) (.emptyMesh .seek)
    hold register found.2

def spiral (increment : UInt32) (register : Register) : Handler Unit := do
  modify fun core ↦ { core with spiralDepth := Core.deepen core.spiralDepth increment }
  times increment.toNat (changeRegister register SpiralVector.rotate)

/-- Makes a node of the cycle, unless it is there. -/
def enter (budget : Nat) (seed : SpiralVector) (index : Nat) : Handler Unit := do
  let mesh := (← get).mesh
  if mesh.contains (Core.cycleId index) then pure ()
  else do
    checkRoom budget (Core.cycleId index)
    let previous := Core.cycleId (index - 1)
    changeMesh (·.insert (Core.cycleId index)
      ((Node.new seed).connectAll (if 0 < index ∧ mesh.contains previous then [previous] else [])))

/-- Makes a node of the cycle, if it is missing, and turns it. -/
def cycleNode (budget : Nat) (seed : SpiralVector) (count index : Nat) : Handler Unit := do
  enter budget seed index
  times count (changeNode (Core.cycleId index) fun node ↦
    { node with vector := node.vector.rotate })

def cycle (budget : Nat) (count : UInt32) (start stop : Nat) : Handler Unit :=
  if stop < start then throw (.fault (.reversedRange .cycle start stop))
  else do
    let seed := (← get).registers.a
    (List.range' start (stop - start)).forM (cycleNode budget seed count.toNat)

def sync : Handler Unit := do
  let reference := (← get).registers.a
  changeMesh (·.mapNodes fun _ node ↦
    { node with resonance := Resonance.pair node.vector reference })

def mask (node : Option String) (register : Register) : Handler Unit := do
  let core ← get
  let id ← attempt (core.target .mask node)
  let node ← require (core.mesh.get? id) (.nodeNotFound id)
  moveNode id (core.registers.get register)
  hold register node.vector

def cryst (node : Option String) : Handler Unit := do
  let core ← get
  let id ← attempt (core.target .cryst node)
  let _ ← require (core.mesh.get? id) (.nodeNotFound id)
  remember id "crystal" (.reals core.registers.a.toList)
  remember id "crystal_depth" (.integer core.spiralDepth.toNat)

def spec : Handler Unit := do
  let core ← get
  let spectrum ← attempt <| Core.finite .spec
    ⟨core.registers.a.magnitude, core.registers.b.magnitude, core.registers.c.magnitude,
      core.mesh.resonance⟩
  hold .d spectrum

def bloom : Option Lesson → Handler Unit
  | some lesson => hold .c lesson.vector.rotate
  | none => pure ()

/-- Carries out an instruction on a core, in place. -/
def carry (budget : Nat) (lastLesson : Option Lesson) : Instruction → Handler Unit
  | .init clears => initialise budget clears
  | .mesh id connect => link budget id connect
  | .phi register => changeRegister register SpiralVector.goldenWrap
  | .rot register => changeRegister register SpiralVector.rotate
  | .bound register min max => bound register min max
  | .flow source target => flow source target
  | .seek node register => seek node register
  | .spiral increment register => spiral increment register
  | .cycle count start stop => cycle budget count start stop
  | .forge id connect => forge budget id connect
  | .sync _ _ => sync
  | .mask node register => mask node register
  | .cryst node => cryst node
  | .spec => spec
  | .bloom => bloom lastLesson
  | .save _ => pure ()

/-! ### What they come to -/

variable {core : Core} {budget : Nat}

/-- A program that starts with an attempt comes to a change if the rest of it does, after each
success. -/
theorem attempt_run {α : Type} (found : Except Fault α) {next : α → Handler Unit}
    {makes : α → Except Fault Core}
    (h : ∀ value, found = .ok value →
      next value core = (Change.ofExcept (makes value)).inPlace core budget) :
    (attempt found >>= next) core = (Change.ofExcept (found >>= makes)).inPlace core budget := by
  cases found with
  | error cause => rfl
  | ok value => exact h value rfl

/-- A program that starts by asking for something comes to a change if the rest of it does, where
there is something, and the change is a fault where there is nothing. -/
theorem require_run {α : Type} (found : Option α) {cause : Fault} {next : α → Handler Unit}
    {change : Change}
    (hsome : ∀ value, found = some value → next value core = change.inPlace core budget)
    (hnone : found = none → change = .fault cause) :
    (require found cause >>= next) core = change.inPlace core budget := by
  cases found with
  | none =>
    rw [hnone rfl]
    rfl
  | some value => exact hsome value rfl

theorem checkRoom_of_room {id : String} (h : Core.admits core.mesh budget id) :
    checkRoom budget id core = .ok () core := by
  change (if Core.admits core.mesh budget id then pure () else throw _ : Handler Unit) core = _
  rw [if_pos h]
  rfl

theorem checkRoom_of_full {id : String} (h : ¬Core.admits core.mesh budget id) :
    checkRoom budget id core =
      .error (.fatal (.capacityExceeded core.mesh.size budget)) core := by
  change (if Core.admits core.mesh budget id then pure () else throw _ : Handler Unit) core = _
  rw [if_neg h]
  rfl

theorem changeNode_changeNode (core : Core) (id : String) (first second : Node → Node) :
    changeNode id second { core with mesh := core.mesh.modify id first } =
      changeNode id (second ∘ first) core := by
  change EStateM.Result.ok () { core with mesh := (core.mesh.modify id first).modify id second } = _
  rw [Mesh.modify_modify]
  rfl

theorem changeNode_id (core : Core) (key : String) : changeNode key id core = .ok () core := by
  have hmesh : core.mesh.modify key id = core.mesh := Mesh.modify_eq_self fun _ _ ↦ rfl
  change EStateM.Result.ok () { core with mesh := core.mesh.modify key id } = _
  rw [hmesh]

/-- Connections that are added one by one. -/
theorem forM_connect (id : String) (targets : List String) (core : Core) :
    (targets.forM fun target ↦ changeNode id (·.connect target)) core =
      changeNode id (·.connectAll targets) core := by
  induction targets generalizing core with
  | nil => exact (changeNode_id core id).symm
  | cons target rest ih =>
    exact (bind_of_ok rfl).trans ((ih _).trans (changeNode_changeNode core id _ _))

theorem times_rotate_node (id : String) (count : Nat) (core : Core) :
    times count (changeNode id fun node ↦ { node with vector := node.vector.rotate }) core =
      changeNode id (fun node ↦ { node with vector := node.vector.rotateBy count }) core := by
  induction count generalizing core with
  | zero => exact (changeNode_id core id).symm
  | succ count ih =>
    exact (bind_of_ok rfl).trans ((ih _).trans (changeNode_changeNode core id _ _))

theorem times_rotate_register (register : Register) (count : Nat) (core : Core) :
    times count (changeRegister register SpiralVector.rotate) core =
      changeRegister register (SpiralVector.rotateBy count) core := by
  induction count generalizing core with
  | zero =>
    change _ = EStateM.Result.ok () { core with registers := core.registers.modify register id }
    rw [RegisterFile.modify_id]
    rfl
  | succ count ih =>
    refine (bind_of_ok rfl).trans ((ih _).trans ?_)
    change EStateM.Result.ok () { core with
      registers := (core.registers.modify register SpiralVector.rotate).modify register _ } = _
    rw [RegisterFile.modify_modify]
    rfl

theorem initialise_run (clears : Bool) :
    initialise budget clears core = (core.initialise budget clears).inPlace core budget := by
  cases clears with
  | false => rfl
  | true =>
    refine (bind_of_ok rfl).trans <| (bind_of_ok rfl).trans <| (bind_of_ok rfl).trans ?_
    by_cases hroom : Core.admits .empty budget Core.originId
    · rw [Core.initialise, if_neg nofun, if_pos hroom]
      exact bind_of_ok (checkRoom_of_room hroom)
    · rw [Core.initialise, if_neg nofun, if_neg hroom]
      exact bind_of_error (checkRoom_of_full hroom)

theorem place_run (id : String) (vector : SpiralVector) (added initial : List String) :
    place budget id vector added initial core =
      (core.place budget id vector added initial).inPlace core budget := by
  unfold place Core.place
  refine (bind_of_ok rfl).trans ?_
  split
  · exact (bind_of_ok rfl).trans <|
      (forM_connect id added _).trans (changeNode_changeNode core id _ _)
  · split
    · rename_i hroom
      exact bind_of_ok (checkRoom_of_room hroom)
    · rename_i hfull
      exact bind_of_error (checkRoom_of_full hfull)

theorem bound_run (register : Register) (min max : Float) :
    bound register min max core =
      (Change.ofExcept (core.bound register min max)).inPlace core budget := by
  unfold bound Core.bound
  split <;> rfl

theorem flow_run (source target : Option String) :
    flow source target core =
      (Change.ofExcept (core.flow source target)).inPlace core budget := by
  refine attempt_run _ fun source _ ↦ attempt_run _ fun target _ ↦ attempt_run _ fun origin _ ↦
    attempt_run _ fun node _ ↦ attempt_run _ fun vector _ ↦ ?_
  split <;> rfl

theorem seek_run (node : Option String) (register : Register) :
    seek node register core =
      (Change.ofExcept (core.seek node register)).inPlace core budget := by
  cases node with
  | some id =>
    refine require_run (core.mesh.get? id) (fun node hnode ↦ ?_) fun hnone ↦ ?_
    · simp only [Core.seek, hnode]
      rfl
    · simp only [Core.seek, hnone]
      rfl
  | none =>
    refine require_run _ (fun found hfound ↦ ?_) fun hnone ↦ ?_
    · simp only [Core.seek, hfound]
      rfl
    · simp only [Core.seek, hnone]
      rfl

theorem spiral_run (increment : UInt32) (register : Register) :
    spiral increment register core =
      (Change.applied (core.spiral increment register)).inPlace core budget :=
  (bind_of_ok rfl).trans (times_rotate_register register increment.toNat _)

theorem enter_of_contains {index : Nat} (h : core.mesh.contains (Core.cycleId index))
    (budget : Nat) (seed : SpiralVector) : enter budget seed index core = .ok () core := by
  refine (bind_of_ok rfl).trans ?_
  rw [if_pos h]
  rfl

theorem enter_of_not_contains {index : Nat} (h : ¬core.mesh.contains (Core.cycleId index))
    (budget : Nat) (seed : SpiralVector) :
    enter budget seed index core =
      (checkRoom budget (Core.cycleId index) >>= fun _ ↦
        changeMesh (·.insert (Core.cycleId index) ((Node.new seed).connectAll
          (if 0 < index ∧ core.mesh.contains (Core.cycleId (index - 1)) then
            [Core.cycleId (index - 1)] else [])))) core := by
  refine (bind_of_ok rfl).trans ?_
  rw [if_neg h]

theorem cycleNode_run (budget : Nat) (seed : SpiralVector) (count index : Nat) (core : Core) :
    cycleNode budget seed count index core =
      match Core.cycleNode? core.mesh budget seed count index with
      | some mesh => .ok () { core with mesh }
      | none => .error (.fatal (.capacityExceeded core.mesh.size budget)) core := by
  unfold Core.cycleNode?
  dsimp only
  by_cases hcontains : core.mesh.contains (Core.cycleId index)
  · rw [if_pos hcontains]
    exact (bind_of_ok (enter_of_contains hcontains budget seed)).trans (times_rotate_node ..)
  · have henter := enter_of_not_contains hcontains budget seed
    rw [if_neg hcontains]
    by_cases hroom : Core.admits core.mesh budget (Core.cycleId index)
    · rw [if_pos hroom]
      exact (bind_of_ok (henter.trans (bind_of_ok (checkRoom_of_room hroom)))).trans
        (times_rotate_node ..)
    · rw [if_neg hroom]
      exact bind_of_error (henter.trans (bind_of_error (checkRoom_of_full hroom)))

theorem cycleNodes_run (seed : SpiralVector) (count length index : Nat) (core : Core) :
    (List.range' index length).forM (cycleNode budget seed count) core =
      match Core.cycleNodes budget seed count length index core.mesh with
      | (mesh, true) => .ok () { core with mesh }
      | (mesh, false) =>
        .error (.fatal (.capacityExceeded mesh.size budget)) { core with mesh } := by
  induction length generalizing index core with
  | zero => rfl
  | succ length ih =>
    rw [List.range'_succ, Core.cycleNodes]
    have hnode := cycleNode_run budget seed count index core
    cases hmesh : Core.cycleNode? core.mesh budget seed count index with
    | none =>
      rw [hmesh] at hnode
      exact bind_of_error hnode
    | some mesh =>
      rw [hmesh] at hnode
      exact (bind_of_ok hnode).trans (ih (index + 1) { core with mesh })

theorem cycle_run (count : UInt32) (start stop : Nat) :
    cycle budget count start stop core =
      (core.cycle budget count start stop).inPlace core budget := by
  unfold cycle Core.cycle
  split
  · rfl
  · refine (bind_of_ok rfl).trans ((cycleNodes_run ..).trans ?_)
    rcases Core.cycleNodes budget core.registers.a count.toNat (stop - start) start core.mesh with
      ⟨mesh, complete⟩
    cases complete <;> rfl

theorem mask_run (node : Option String) (register : Register) :
    mask node register core =
      (Change.ofExcept (core.mask node register)).inPlace core budget := by
  refine attempt_run _ fun id _ ↦
    require_run (core.mesh.get? id) (fun node hnode ↦ ?_) fun hnone ↦ ?_
  · simp only [hnode]
    rfl
  · simp only [hnone]
    rfl

theorem cryst_run (node : Option String) :
    cryst node core = (Change.ofExcept (core.cryst node)).inPlace core budget := by
  refine attempt_run _ fun id hid ↦ require_run (core.mesh.get? id) (fun _ _ ↦ ?_) fun hnone ↦ ?_
  · exact (bind_of_ok rfl).trans (changeNode_changeNode core id _ _)
  · -- the target is there, so the second look finds it
    have hsome := Mesh.get?_isSome_iff.mpr (Core.target_ok hid).2
    rw [hnone] at hsome
    cases hsome

theorem spec_run : spec core = (Change.ofExcept core.spec).inPlace core budget :=
  attempt_run _ fun _ _ ↦ rfl

theorem bloom_run (lesson : Option Lesson) :
    bloom lesson core = (Change.applied (core.bloom lesson)).inPlace core budget := by
  cases lesson <;> rfl

/-- An instruction that is carried out in place comes to what it makes of the core. -/
theorem carry_run (budget : Nat) (lastLesson : Option Lesson) (instruction : Instruction)
    (core : Core) :
    carry budget lastLesson instruction core =
      (core.apply budget lastLesson instruction).inPlace core budget := by
  cases instruction with
  | init clears => exact initialise_run clears
  | mesh id connect => exact (bind_of_ok rfl).trans (place_run ..)
  | phi register => rfl
  | rot register => rfl
  | bound register min max => exact bound_run register min max
  | flow source target => exact flow_run source target
  | seek node register => exact seek_run node register
  | spiral increment register => exact spiral_run increment register
  | cycle count start stop => exact cycle_run count start stop
  | forge id connect => exact (bind_of_ok rfl).trans (place_run ..)
  | sync here remote => rfl
  | mask node register => exact mask_run node register
  | cryst node => exact cryst_run node
  | spec => exact spec_run
  | bloom => exact bloom_run lastLesson
  | save path => rfl

end Handler

end SpiralMachine
