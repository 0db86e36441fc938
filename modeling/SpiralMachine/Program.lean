import SpiralMachine.Instruction
import SpiralMachine.Json.Document

/-!
# Programs

A program is a list of steps. It is built from bare codes, from opcodes with their
arguments, or from a JSON text that is a list of `[op, args]` and `{"op": .., "args": ..}`
entries. The first thing that is wrong is what is reported.
-/

set_option autoImplicit false

namespace SpiralMachine

structure Program where
  steps : List Step

namespace Program

def empty : Program := ⟨[]⟩

/-- A program in which nothing forks. -/
def ofInstructions (instructions : List Instruction) : Program :=
  ⟨instructions.map fun instruction ↦ { instruction, forks := false }⟩

def size (program : Program) : Nat := program.steps.length

def isEmpty (program : Program) : Bool := program.steps.isEmpty

def get? (program : Program) (ip : Nat) : Option Instruction :=
  program.steps[ip]?.map Step.instruction

/-- Whether the step at `ip` asks for a fork; there is none beyond the end. -/
def forksAt (program : Program) (ip : Nat) : Bool :=
  program.steps[ip]?.any Step.forks

def resolve (op : OpcodeRef) : Except RunError Opcode :=
  op.resolve.mapError .unknownOpcode

/-- One step for each opcode and its arguments. -/
def ofPairs (pairs : List (OpcodeRef × Json.Members)) : Except RunError Program := do
  let steps ← pairs.mapM fun (op, members) ↦ do
    let op ← resolve op
    Step.ofArguments op members
  return ⟨steps⟩

/-- One instruction with default arguments for each code. -/
def ofCodes (codes : List Nat) : Except RunError Program := do
  let ops ← codes.mapM fun code ↦ (Opcode.ofCode code).mapError .unknownOpcode
  return ofInstructions (ops.map Instruction.default)

/-- An entry as it is given: the opcode and the arguments, if there are any. -/
def parts (index : Nat) : Json → Except ProgramFlaw (Json × Option Json)
  | .list [op] => .ok (op, none)
  | .list [op, args] => .ok (op, some args)
  | .object members =>
    match members.lookup "op" with
    | some op => .ok (op, members.lookup "args")
    | none => .error (.missingOp index)
  | _ => .error (.notEntry index)

/-- A code is a whole number below 256. -/
def reference (index : Nat) : Json → Except ProgramFlaw OpcodeRef
  | .string name => .ok (.byName name)
  | .integer value =>
    if 0 ≤ value ∧ value < 256 then .ok (.byCode value.toNat)
    else .error (.badCode index (.integer value))
  | .real value => .error (.badCode index (.real value))
  | op => .error (.unusableOp index op)

def arguments (index : Nat) : Option Json → Except ProgramFlaw Json.Members
  | none => .ok []
  | some .null => .ok []
  | some (.object members) => .ok members
  | some _ => .error (.argumentsNotObject index)

/-- The step of one entry. An unknown opcode is reported before bad arguments. -/
def entry (index : Nat) (value : Json) : Except RunError Step := do
  let (op, args) ← (parts index value).mapError .invalidProgram
  let op ← (reference index op).mapError .invalidProgram
  let op ← resolve op
  let members ← (arguments index args).mapError .invalidProgram
  Step.ofArguments op members

def ofJson : Json → Except RunError Program
  | .list entries => do
    let steps ← entries.zipIdx.mapM fun (value, index) ↦ entry index value
    return ⟨steps⟩
  | _ => .error (.invalidProgram .notList)

def ofText (text : String) : Except RunError Program :=
  match Json.ofText? text with
  | some value => ofJson value
  | none => .error (.invalidProgram .notJson)

end Program

end SpiralMachine
