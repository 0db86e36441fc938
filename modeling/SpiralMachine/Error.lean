import SpiralMachine.Json.Printer
import SpiralMachine.Opcode
import SpiralMachine.Register

/-!
# Errors

Everything that can go wrong, by cause, with its wording. A `Fault` is met by one
instruction and a run goes on after it; a `RunError` reaches the caller.
-/

set_option autoImplicit false

namespace SpiralMachine

/-- Why a file or directory could not be reached. -/
inductive FileError where
  | notFound
  | notDirectory
  | isDirectory
  | exists
  | nameTooLong
  | invalidName
  deriving DecidableEq, Repr

def FileError.message : FileError → String
  | notFound => "No such file or directory (os error 2)"
  | notDirectory => "Not a directory (os error 20)"
  | isDirectory => "Is a directory (os error 21)"
  | .exists => "File exists (os error 17)"
  | nameTooLong => "File name too long (os error 36)"
  | invalidName => "file name contained an unexpected NUL byte"

/-- A crystal that reads well and still cannot be taken or written. -/
inductive CrystalFlaw where
  | node (id : String)
  | register (name : String)
  | logEntry (index : Nat)
  | unknownRegister (text : String)
  | described (text : String)
  deriving DecidableEq, Repr

def CrystalFlaw.message : CrystalFlaw → String
  | node id => s!"node '{id}' is not finite"
  | register name => s!"register {name} is not finite"
  | logEntry index => s!"resonance log entry {index} is not finite"
  | unknownRegister text => Register.unknownMessage text
  | described text => text

inductive CrystalError where
  | io (cause : FileError)
  | notCrystal
  | invalid (flaw : CrystalFlaw)
  deriving DecidableEq, Repr

def CrystalError.message : CrystalError → String
  | io cause => s!"I/O error while accessing crystal: {cause.message}"
  | notCrystal => "Failed to (de)serialize crystal: the text is no crystal"
  | invalid flaw => s!"Crystal has invalid structure: {flaw.message}"

/-- What is wrong with a configuration text. -/
inductive ConfigFlaw where
  | notConfig
  | threshold
  | nodeBudget
  | emptyPath
  | described (text : String)
  deriving DecidableEq, Repr

def ConfigFlaw.message : ConfigFlaw → String
  | notConfig => "the text is no configuration"
  | threshold => "vm.resonance_threshold must lie within [0, φ]"
  | nodeBudget => "vm.max_mesh_nodes must be ≥ 1"
  | emptyPath => "vm.crystal_path must not be empty"
  | described text => text

inductive ConfigError where
  | io (cause : FileError)
  | parse (flaw : ConfigFlaw)
  deriving DecidableEq, Repr

def ConfigError.message : ConfigError → String
  | io cause => s!"IO error: {cause.message}"
  | parse flaw => s!"Parse error: {flaw.message}"

/-- What is wrong with an argument. -/
inductive ArgumentFlaw where
  | notBoolean
  | notNumber
  | notNatural
  | countTooLarge
  | notString
  | notStrings
  | unknownRegister (text : String)
  | described (text : String)
  deriving DecidableEq, Repr

def ArgumentFlaw.message : ArgumentFlaw → String
  | notBoolean => "expected a boolean"
  | notNumber => "expected a number"
  | notNatural => "expected a non-negative integer"
  | countTooLarge => "count does not fit in 32 bits"
  | notString => "expected a string"
  | notStrings => "expected a list of strings"
  | unknownRegister text => Register.unknownMessage text
  | described text => text

/-- What is wrong with the text of a program. -/
inductive ProgramFlaw where
  | notJson
  | notList
  | missingOp (index : Nat)
  | notEntry (index : Nat)
  | badCode (index : Nat) (code : Json)
  | unusableOp (index : Nat) (op : Json)
  | argumentsNotObject (index : Nat)
  | described (text : String)

def ProgramFlaw.message : ProgramFlaw → String
  | notJson => "the text is not JSON"
  | notList => "program must be a JSON array"
  | missingOp index => s!"entry {index} is missing \"op\""
  | notEntry index =>
    s!"entry {index} must be [op, args] or " ++ "\x7b\"op\": .., \"args\": ..\x7d"
  | badCode index code => s!"entry {index} has bad code {Json.compact.render code}"
  | unusableOp index op => s!"entry {index} has unusable op {Json.compact.render op}"
  | argumentsNotObject index => s!"entry {index} arguments must be an object"
  | described text => text

/-- A failure that reaches the caller. -/
inductive RunError where
  | unknownOpcode (error : OpcodeError)
  | invalidArgument (op : Opcode) (key : String) (flaw : ArgumentFlaw)
  | invalidProgram (flaw : ProgramFlaw)
  | capacityExceeded (current max : Nat)
  | persistence (cause : CrystalError)
  | config (cause : ConfigError)

namespace RunError

def message : RunError → String
  | unknownOpcode (.unknownCode code) => s!"Unknown opcode {hexCode code}"
  | unknownOpcode (.unknownName name) => s!"Unknown opcode name '{name}'"
  | invalidArgument op key flaw => s!"Invalid argument '{key}' for {op.name}: {flaw.message}"
  | invalidProgram flaw => s!"Invalid program: {flaw.message}"
  | capacityExceeded current max =>
    s!"Mesh capacity exceeded: {current} nodes present, budget is {max}"
  | persistence cause => s!"Crystal persistence failed: {cause.message}"
  | config cause => s!"Configuration error: {cause.message}"

/-- The wording of the error that this one passes on. -/
def sourceMessage? : RunError → Option String
  | persistence cause => some cause.message
  | config cause => some cause.message
  | _ => none

end RunError

/-- A fault of one instruction, from which the run recovers. -/
inductive Fault where
  | nodeNotFound (id : String)
  | emptyMesh (op : Opcode)
  | reversedRange (op : Opcode) (start stop : Nat)
  | invalidBounds (min max : Float)
  /-- The result overflowed and was not stored. -/
  | nonFinite (op : Opcode)
  | unsaved (reason : String)

def Fault.message : Fault → String
  | nodeNotFound id => s!"mesh node '{id}' not found"
  | emptyMesh op => s!"{op.name} requires a non-empty mesh"
  | reversedRange op start stop => s!"{op.name} range {start}..{stop} is reversed"
  | invalidBounds min max =>
    let plain (x : Float) : String := String.ofList (Number.plain.write x)
    s!"bounds [{plain min}, {plain max}] are empty or not finite"
  | nonFinite op => s!"{op.name} produced a non-finite vector"
  | unsaved reason => s!"crystal write failed: {reason}"

/-- What became of one instruction. -/
inductive Outcome where
  | applied
  | recoverable (fault : Fault)
  | fatal (error : RunError)

def Outcome.isApplied : Outcome → Bool
  | applied => true
  | _ => false

end SpiralMachine
