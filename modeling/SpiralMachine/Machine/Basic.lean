import SpiralMachine.Config.Basic
import SpiralMachine.Crystal.Document
import SpiralMachine.Program

/-!
# The machine

A core with the history of its runs: the resonance log, the lessons and failures, the
forks, and the program and place of the last run. Its crystal is the part that is kept.
Restoring a crystal gives a fresh machine with that part, under the old configuration
and event sink.
-/

set_option autoImplicit false

namespace SpiralMachine

structure Machine extends Core where
  log : List ResonanceEntry
  mansion : List Lesson
  failures : FailureLog
  mode : Mode
  ip : Nat
  program : Program
  forkCount : Nat
  /-- The fork count after each fork. -/
  forks : List Nat
  config : Config
  sink : EventSink

namespace Machine

/-- A machine that has not run. -/
def new (config : Config) (sink : EventSink) : Machine :=
  { Core.fresh with
    log := []
    mansion := []
    failures := .empty
    mode := .simulate
    ip := 0
    program := .empty
    forkCount := 0
    forks := []
    config
    sink }

def crystal (machine : Machine) : Crystal where
  mesh := machine.mesh
  registers := machine.registers.toList.map fun (register, vector) ↦ (register.name, vector)
  spiralDepth := machine.spiralDepth
  log := machine.log

/-- Takes over a crystal, unless one of its registers has no register's name. -/
def restore (machine : Machine) (crystal : Crystal) : Except CrystalError Machine := do
  let registers ← Crystal.namedRegisters crystal.registers
  return { new machine.config machine.sink with
    mesh := crystal.mesh
    registers := Crystal.registerFile registers
    spiralDepth := crystal.spiralDepth
    log := crystal.log }

/-- The text of the crystal, if all its numbers are finite. -/
def toText (machine : Machine) : Except CrystalError String := do
  machine.crystal.checkFinite
  return machine.crystal.text

/-- Takes over the crystal that a text holds. -/
def restoreText (machine : Machine) (text : String) : Except CrystalError Machine :=
  match Crystal.ofText? text with
  | some crystal => machine.restore crystal
  | none => .error .notCrystal

/-- Writes the crystal to a file. Nothing is touched if it cannot be written down. -/
def save (machine : Machine) (host : Host) (path : String) : Host × Option CrystalError :=
  match machine.toText with
  | .error cause => (host, some cause)
  | .ok text =>
    match host.files.store path fun _ ↦ text with
    | (files, none) => ({ host with files }, none)
    | (files, some cause) => ({ host with files }, some (.io cause))

/-- Takes over the crystal of a file. A directory opens like a file, but has no text. -/
def load (machine : Machine) (host : Host) (path : String) : Except CrystalError Machine :=
  match host.files.read path with
  | .ok text => machine.restoreText text
  | .error .isDirectory => .error .notCrystal
  | .error cause => .error (.io cause)

/-- A line that sums up the machine. -/
def describe (machine : Machine) : String :=
  "ResonanceVm \x7b mode: " ++ machine.mode.title ++ s!", ip: {machine.ip}"
    ++ s!", nodes: {machine.mesh.size}, spiral_depth: {machine.spiralDepth.toNat}"
    ++ s!", errors: {machine.mansion.length}, log_entries: {machine.log.length}, .. \x7d"

end Machine

end SpiralMachine
