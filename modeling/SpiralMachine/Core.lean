import SpiralMachine.Failure
import SpiralMachine.Instruction
import SpiralMachine.Mesh.Resonance

/-!
# The core of the machine

The mesh, the registers and the spiral depth, and what each instruction does to them.
It depends on nothing else but the node budget and the last lesson. A fault leaves the
core as it was; an exhausted budget stops an instruction where it is.
-/

set_option autoImplicit false

namespace SpiralMachine

structure Core where
  mesh : Mesh
  registers : RegisterFile
  spiralDepth : UInt32

/-- What an instruction makes of a core. -/
inductive Change where
  | applied (core : Core)
  | fault (fault : Fault)
  /-- A node had to be created and the mesh was full. -/
  | full (core : Core)

def Change.ofExcept : Except Fault Core → Change
  | .ok core => .applied core
  | .error cause => .fault cause

namespace Core

def fresh : Core := ⟨.empty, .zero, 0⟩

def setRegister (core : Core) (register : Register) (vector : SpiralVector) : Core :=
  { core with registers := core.registers.set register vector }

/-- Whether the mesh may have a node under `id`: it has one or there is room. -/
def admits (mesh : Mesh) (budget : Nat) (id : String) : Bool :=
  mesh.contains id || mesh.size < budget

/-- The node an instruction names, or else the one that was created last. -/
def target (core : Core) (op : Opcode) : Option String → Except Fault String
  | some id => if core.mesh.contains id then .ok id else .error (.nodeNotFound id)
  | none => core.mesh.lastId?.elim (.error (.emptyMesh op)) .ok

/-- Vectors that are not finite are not stored. -/
def finite (op : Opcode) (vector : SpiralVector) : Except Fault SpiralVector :=
  if vector.isFinite then .ok vector else .error (.nonFinite op)

def originId : String := "origin"

/-- Resets the registers; with `clears` the mesh as well, down to one node. -/
def initialise (core : Core) (budget : Nat) (clears : Bool) : Change :=
  let registers := RegisterFile.zero.set .a .seed
  if !clears then .applied { core with registers }
  else if admits .empty budget originId then
    .applied { core with registers, mesh := Mesh.empty.insert originId (.new .seed) }
  else .full { core with registers, mesh := .empty }

/-- Gives the node under `id` a vector and more connections, or creates it with
connections of its own. -/
def place (core : Core) (budget : Nat) (id : String) (vector : SpiralVector)
    (added initial : List String) : Change :=
  if core.mesh.contains id then
    .applied { core with
      mesh := core.mesh.modify id fun node ↦ { node with vector }.connectAll added }
  else if admits core.mesh budget id then
    .applied { core with mesh := core.mesh.insert id ((Node.new vector).connectAll initial) }
  else .full core

/-- Places register A in the mesh. A new node is connected to the one created before it,
unless connections are given. -/
def link (core : Core) (budget : Nat) (id : Option String)
    (connect : Option (List String)) : Change :=
  core.place budget (id.getD (core.mesh.nextId "node")) core.registers.a
    (connect.getD []) (connect.getD core.mesh.lastId?.toList)

/-- Places the phases of the sum of registers A and B in the mesh. -/
def forge (core : Core) (budget : Nat) (id : Option String) (connect : List String) : Change :=
  core.place budget (id.getD (core.mesh.nextId "forge"))
    (core.registers.a.wrappedSum core.registers.b) connect connect

def bound (core : Core) (register : Register) (min max : Float) : Except Fault Core :=
  if !min.isFinite || !max.isFinite || min > max then .error (.invalidBounds min max)
  else .ok (core.setRegister register ((core.registers.get register).clamp min max))

/-- Moves the vector of `target` half way to that of `source`, the last and the first
node by default, and connects two different nodes. -/
def flow (core : Core) (source target : Option String) : Except Fault Core := do
  let mesh := core.mesh
  let empty {α : Type} : Except Fault α := .error (.emptyMesh .flow)
  let source ← (source.or mesh.firstId?).elim empty .ok
  let target ← (target.or mesh.lastId?).elim empty .ok
  let origin ← (mesh.get? source).elim (.error (.nodeNotFound source)) .ok
  let node ← (mesh.get? target).elim (.error (.nodeNotFound target)) .ok
  let vector ← finite .flow (node.vector.blend origin.vector 0.5)
  let moved := mesh.modify target fun node ↦ { node with vector }
  if source = target then return { core with mesh := moved }
  else return { core with mesh := moved.modify source (·.connect target) }

/-- The vector with the greatest score, the first of several. -/
def best (scored : List (Float × SpiralVector)) : Option (Float × SpiralVector) :=
  scored.foldl
    (fun found candidate ↦
      match found with
      | none => some candidate
      | some top => if candidate.1 > top.1 then some candidate else some top)
    none

/-- Loads the vector of a node, or else the one that resonates most with the register. -/
def seek (core : Core) (node : Option String) (register : Register) : Except Fault Core :=
  match node with
  | some id =>
    match core.mesh.get? id with
    | some node => .ok (core.setRegister register node.vector)
    | none => .error (.nodeNotFound id)
  | none =>
    let query := core.registers.get register
    match best (core.mesh.nodes.map fun node ↦ (Resonance.pair node.vector query, node.vector)) with
    | some (_, vector) => .ok (core.setRegister register vector)
    | none => .error (.emptyMesh .seek)

/-- A sum of depths that stays at the greatest depth. -/
def deepen (depth increment : UInt32) : UInt32 :=
  UInt32.ofNat (min (depth.toNat + increment.toNat) (UInt32.size - 1))

def spiral (core : Core) (increment : UInt32) (register : Register) : Core where
  mesh := core.mesh
  registers := core.registers.modify register (SpiralVector.rotateBy increment.toNat)
  spiralDepth := deepen core.spiralDepth increment

def cycleId (index : Nat) : String := s!"cycle_{index}"

/-- The mesh with a node of the cycle, created if it is missing and then rotated; none if
there is no room for it. A new node is connected to the one before it. -/
def cycleNode? (mesh : Mesh) (budget : Nat) (seed : SpiralVector) (count index : Nat) :
    Option Mesh :=
  let id := cycleId index
  let rotate (node : Node) : Node := { node with vector := node.vector.rotateBy count }
  if mesh.contains id then some (mesh.modify id rotate)
  else if admits mesh budget id then
    let previous := if 0 < index ∧ mesh.contains (cycleId (index - 1)) then
      [cycleId (index - 1)] else []
    some ((mesh.insert id ((Node.new seed).connectAll previous)).modify id rotate)
  else none

/-- The nodes of `length` indices from `index` on, and whether there was room for all. -/
def cycleNodes (budget : Nat) (seed : SpiralVector) (count : Nat) :
    (length index : Nat) → Mesh → Mesh × Bool
  | 0, _, mesh => (mesh, true)
  | length + 1, index, mesh =>
    match cycleNode? mesh budget seed count index with
    | some mesh => cycleNodes budget seed count length (index + 1) mesh
    | none => (mesh, false)

def cycle (core : Core) (budget : Nat) (count : UInt32) (start stop : Nat) : Change :=
  if stop < start then .fault (.reversedRange .cycle start stop)
  else
    match cycleNodes budget core.registers.a count.toNat (stop - start) start core.mesh with
    | (mesh, true) => .applied { core with mesh }
    | (mesh, false) => .full { core with mesh }

/-- Scores every node against register A. -/
def sync (core : Core) : Core :=
  { core with
    mesh := core.mesh.mapNodes fun _ node ↦
      { node with resonance := Resonance.pair node.vector core.registers.a } }

/-- Exchanges the vectors of a node and a register. -/
def mask (core : Core) (node : Option String) (register : Register) : Except Fault Core := do
  let id ← core.target .mask node
  match core.mesh.get? id with
  | some node =>
    let held := core.registers.get register
    return { core with
      mesh := core.mesh.modify id fun node ↦ { node with vector := held }
      registers := core.registers.set register node.vector }
  | none => throw (.nodeNotFound id)

/-- Writes register A and the depth into the memory of a node. -/
def cryst (core : Core) (node : Option String) : Except Fault Core := do
  let id ← core.target .cryst node
  let remember (memory : Json.Members) : Json.Members :=
    Keyed.insert "crystal_depth" (.integer core.spiralDepth.toNat)
      (Keyed.insert "crystal" (.reals core.registers.a.toList) memory)
  return { core with
    mesh := core.mesh.modify id fun node ↦ { node with memory := remember node.memory } }

/-- The magnitudes of the first three registers and the resonance of the mesh, in D. -/
def spec (core : Core) : Except Fault Core := do
  let spectrum : SpiralVector :=
    ⟨core.registers.a.magnitude, core.registers.b.magnitude, core.registers.c.magnitude,
      core.mesh.resonance⟩
  let spectrum ← finite .spec spectrum
  return core.setRegister .d spectrum

/-- Turns the vector of the last lesson into register C. -/
def bloom (core : Core) : Option Lesson → Core
  | some lesson => core.setRegister .c lesson.vector.rotate
  | none => core

/-- What an instruction does to the core. Saving does nothing to it. -/
def apply (core : Core) (budget : Nat) (lastLesson : Option Lesson) : Instruction → Change
  | .init clears => core.initialise budget clears
  | .mesh id connect => core.link budget id connect
  | .phi register =>
    .applied { core with registers := core.registers.modify register SpiralVector.goldenWrap }
  | .rot register =>
    .applied { core with registers := core.registers.modify register SpiralVector.rotate }
  | .bound register min max => .ofExcept (core.bound register min max)
  | .flow source target => .ofExcept (core.flow source target)
  | .seek node register => .ofExcept (core.seek node register)
  | .spiral increment register => .applied (core.spiral increment register)
  | .cycle count start stop => core.cycle budget count start stop
  | .forge id connect => core.forge budget id connect
  | .sync _ _ => .applied core.sync
  | .mask node register => .ofExcept (core.mask node register)
  | .cryst node => .ofExcept (core.cryst node)
  | .spec => .ofExcept core.spec
  | .bloom => .applied (core.bloom lastLesson)
  | .save _ => .applied core

end Core

end SpiralMachine
