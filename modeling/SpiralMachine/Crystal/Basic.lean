import SpiralMachine.Core

/-!
# Crystals

A crystal is the part of a machine that is kept: the mesh, the registers by name, the
spiral depth and the resonance log. Only numbers that are finite can be written down.
-/

set_option autoImplicit false

namespace SpiralMachine

/-- The resonance of the mesh before and after one instruction. -/
structure ResonanceEntry where
  op : String
  before : Float
  after : Float
  delta : Float

def ResonanceEntry.isFinite (entry : ResonanceEntry) : Bool :=
  entry.before.isFinite && entry.after.isFinite && entry.delta.isFinite

structure Crystal where
  mesh : Mesh
  /-- In the order of the names, which need not be names of registers. -/
  registers : List (String × SpiralVector)
  spiralDepth : UInt32
  log : List ResonanceEntry

namespace Crystal

def nodeFlaw? : List (String × Node) → Option CrystalFlaw
  | [] => none
  | (id, node) :: rest =>
    if node.vector.isFinite && node.resonance.isFinite then nodeFlaw? rest else some (.node id)

def registerFlaw? : List (String × SpiralVector) → Option CrystalFlaw
  | [] => none
  | (name, vector) :: rest =>
    if vector.isFinite then registerFlaw? rest else some (.register name)

def logFlaw? (index : Nat) : List ResonanceEntry → Option CrystalFlaw
  | [] => none
  | entry :: rest => if entry.isFinite then logFlaw? (index + 1) rest else some (.logEntry index)

/-- The first number of a crystal that is not finite. -/
def flaw? (crystal : Crystal) : Option CrystalFlaw :=
  nodeFlaw? crystal.mesh.entries
    |>.or (registerFlaw? crystal.registers)
    |>.or (logFlaw? 0 crystal.log)

def checkFinite (crystal : Crystal) : Except CrystalError Unit :=
  match crystal.flaw? with
  | some flaw => .error (.invalid flaw)
  | none => .ok ()

/-- What the names of a crystal's registers stand for; the first that is no register's
name is refused. -/
def namedRegisters :
    List (String × SpiralVector) → Except CrystalError (List (Register × SpiralVector))
  | [] => .ok []
  | (name, vector) :: rest =>
    match Register.ofName? name with
    | some register => do return (register, vector) :: (← namedRegisters rest)
    | none => .error (.invalid (.unknownRegister name))

/-- A register file holding these vectors, and zero elsewhere. -/
def registerFile (registers : List (Register × SpiralVector)) : RegisterFile :=
  registers.foldl (fun file (register, vector) ↦ file.set register vector) .zero

end Crystal

end SpiralMachine
