import SpiralMachine.Machine.Basic

/-!
# Running a program

The steps of a program run in order. Each is bracketed by two measurements of the mesh,
which go into the log. A fault is noted and the run goes on; an exhausted node budget
ends it. After every so many steps as the spiral is deep a self-audit looks at the mesh.
A run that comes to its end writes the crystal.
-/

set_option autoImplicit false

namespace SpiralMachine

/-- What a completed run reports. -/
structure Summary where
  instructions : Nat
  faults : Nat
  finalResonance : Float
  mode : Mode
  crystalPath : String

/-- So many lessons may be learned before an incoherent mesh arms the machine. -/
def armLimit : Nat := 10

namespace Machine

/-- A score as JSON shows it; one that is not finite has no form. -/
def scoreJson (x : Float) : Json := if x.isFinite then .real x else .null

/-- A machine and what it works in, after something was done. -/
structure Effect where
  machine : Machine
  host : Host

def emit (machine : Machine) (host : Host) (eventType : String) (details : Json.Members) :
    Effect :=
  ⟨machine, host.emit machine.sink eventType details⟩

def enterFork (machine : Machine) (host : Host) : Effect :=
  let count := machine.forkCount + 1
  { machine with mode := .fork, forkCount := count, forks := machine.forks ++ [count] }.emit host
    "fork" [("count", .integer count), ("ip", .integer machine.ip)]

/-- Tells of an instruction that is about to run, in a tracing or dry run. -/
def narrate (machine : Machine) (host : Host) (flags : Config) (op : Opcode) : Effect :=
  if machine.mode.narrates || flags.dryRun then
    machine.emit host "op_narrative"
      [("description", .string op.description), ("glyph", .string op.glyph),
        ("ip", .integer machine.ip), ("mode", .string machine.mode.name),
        ("op", .string op.name)]
  else ⟨machine, host⟩

/-- How close two numbers are, one when they are equal. -/
def closeness (here remote : Float) : Float := 1.0 / (1.0 + (here - remote).abs)

/-- Tells of two numbers that are close enough. -/
def reportSync (machine : Machine) (host : Host) (flags : Config) (here remote : Float) : Host :=
  let score := closeness here remote
  if score ≥ flags.resonanceThreshold then
    host.emit machine.sink "resonance_threshold"
      [("ip", .integer machine.ip), ("local", scoreJson here), ("remote", scoreJson remote),
        ("score", scoreJson score), ("threshold", scoreJson flags.resonanceThreshold)]
  else host

/-- Writes the crystal where the mode and the flags allow it. -/
def saveOpcode (machine : Machine) (host : Host) (flags : Config) (path : Option String) :
    Host × Outcome :=
  let path := path.getD flags.crystalPath
  if !machine.mode.allowsWrites || flags.dryRun then
    (host.emit machine.sink "save_skipped"
      [("dry_run", .boolean flags.dryRun), ("ip", .integer machine.ip),
        ("mode", .string machine.mode.name), ("path", .string path)], .applied)
  else
    match machine.save host path with
    | (host, some cause) => (host, .recoverable (.unsaved cause.message))
    | (host, none) =>
      (host.emit machine.sink "crystal_saved"
        [("ip", .integer machine.ip), ("path", .string path)], .applied)

/-- Carries out one instruction. -/
def dispatch (machine : Machine) (host : Host) (flags : Config) (instruction : Instruction) :
    Effect × Outcome :=
  match machine.toCore.apply flags.maxMeshNodes machine.mansion.getLast? instruction with
  | .fault fault => (⟨machine, host⟩, .recoverable fault)
  | .full core =>
    (⟨{ machine with toCore := core }, host⟩,
      .fatal (.capacityExceeded core.mesh.size flags.maxMeshNodes))
  | .applied core =>
    let changed := { machine with toCore := core }
    match instruction with
    | .sync here remote => (⟨changed, machine.reportSync host flags here remote⟩, .applied)
    | .save path =>
      let (host, outcome) := machine.saveOpcode host flags path
      (⟨changed, host⟩, outcome)
    | _ => (⟨changed, host⟩, .applied)

/-- Notes a fault as a failure and as a lesson with register A. -/
def recordFault (machine : Machine) (op : Opcode) (fault : Fault) : Machine :=
  { machine with
    failures := machine.failures.report
      { op := op.name, ip := machine.ip, error := fault.message }
    mansion := machine.mansion ++ [.of .exception machine.registers.a fault.message] }

/-- Arms the machine once it has learned enough. -/
def arm (machine : Machine) (host : Host) (resonance : Float) : Effect :=
  if armLimit < machine.mansion.length ∧ machine.mode ≠ .arm then
    { machine with mode := .arm }.emit host "arm_entered"
      [("errors", .integer machine.mansion.length), ("ip", .integer machine.ip),
        ("resonance", scoreJson resonance)]
  else ⟨machine, host⟩

/-- Notes an incoherent mesh. -/
def audit (machine : Machine) (host : Host) : Effect :=
  let resonance := machine.mesh.resonance
  if resonance ≥ goldenInverse then ⟨machine, host⟩
  else
    let lesson := Lesson.of .resonanceCollapse machine.registers.a collapseLesson
    let told := { machine with mansion := machine.mansion ++ [lesson] }.emit host
      "resonance_collapse"
      [("ip", .integer machine.ip), ("resonance", scoreJson resonance),
        ("spiral_depth", .integer machine.spiralDepth.toNat)]
    told.machine.arm told.host resonance

/-- Whether an audit is due, after a multiple of the spiral depth. -/
def auditIsDue (machine : Machine) : Bool :=
  0 < machine.spiralDepth.toNat && machine.ip % machine.spiralDepth.toNat = 0

/-- What a step does before its instruction. -/
def prepare (machine : Machine) (host : Host) (flags : Config) (step : Step) : Effect :=
  let forked := if flags.forkTracking && step.forks then machine.enterFork host
    else ⟨machine, host⟩
  forked.machine.narrate forked.host flags step.instruction.opcode

def logEntry (op : Opcode) (before after : Float) : ResonanceEntry :=
  { op := op.name, before, after, delta := after - before }

/-- Carries out an instruction between two measurements of the mesh. -/
def measured (machine : Machine) (host : Host) (flags : Config) (instruction : Instruction) :
    Effect × Outcome :=
  let before := machine.mesh.resonance
  let (done, outcome) := machine.dispatch host flags instruction
  let entry := logEntry instruction.opcode before done.machine.mesh.resonance
  (⟨{ done.machine with log := done.machine.log ++ [entry] }, done.host⟩, outcome)

/-- Moves on to the next step, past an audit if one is due. -/
def advance (machine : Machine) (host : Host) : Effect :=
  let next := { machine with ip := machine.ip + 1 }
  if next.auditIsDue then next.audit host else ⟨next, host⟩

/-- How far a run has come: its faults, and what ended it early. -/
structure Progress extends Effect where
  faults : Nat
  failure : Option RunError

/-- Runs steps one by one. -/
def runSteps (flags : Config) : List Step → Machine → Host → (faults : Nat) → Progress
  | [], machine, host, faults => { machine, host, faults, failure := none }
  | step :: rest, machine, host, faults =>
    let ready := machine.prepare host flags step
    let (done, outcome) := ready.machine.measured ready.host flags step.instruction
    match outcome with
    | .applied =>
      let next := done.machine.advance done.host
      runSteps flags rest next.machine next.host faults
    | .recoverable fault =>
      let noted := done.machine.recordFault step.instruction.opcode fault
      let next := noted.advance done.host
      runSteps flags rest next.machine next.host (faults + 1)
    | .fatal error =>
      { machine := { done.machine with ip := done.machine.ip + 1 }
        host := done.host
        faults
        failure := some error }

/-- The mode a run starts in. -/
def startMode (flags : Config) (mode : Mode) : Mode :=
  if mode = .simulate ∧ flags.narrativeMode then .trace else mode

/-- Runs a program to its end and writes the crystal. -/
def execute (machine : Machine) (host : Host) (program : Program) (mode : Mode) :
    Effect × Except RunError Summary :=
  let flags := machine.config
  let start := { machine with mode := startMode flags mode, ip := 0, program }
  let finish := runSteps flags program.steps start host 0
  match finish.failure with
  | some error => (finish.toEffect, .error error)
  | none =>
    let (host, failure) := finish.machine.save finish.host flags.crystalPath
    match failure with
    | some cause => (⟨finish.machine, host⟩, .error (.persistence cause))
    | none =>
      (⟨finish.machine, host⟩,
        .ok
          { instructions := program.size
            faults := finish.faults
            finalResonance := finish.machine.mesh.resonance
            mode := finish.machine.mode
            crystalPath := flags.crystalPath })

/-- Runs a program without durable writes but the last. -/
def run (machine : Machine) (host : Host) (program : Program) :
    Effect × Except RunError Summary :=
  machine.execute host program .simulate

/-- Runs bare codes, with default arguments, on a fresh machine. -/
def runCodes (config : Config) (host : Host) (codes : List Nat) :
    Effect × Except RunError Summary :=
  let fresh := new config .none
  match Program.ofCodes codes with
  | .ok program => fresh.run host program
  | .error error => (⟨fresh, host⟩, .error error)

end Machine

end SpiralMachine
