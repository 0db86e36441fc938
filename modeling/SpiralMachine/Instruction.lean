import SpiralMachine.Error

/-!
# Instructions

An instruction is an opcode with the arguments that it uses. It is read from the members
of a JSON object: a missing key and null both mean the default, and keys the opcode does
not use are passed over.
-/

set_option autoImplicit false

namespace SpiralMachine

inductive Instruction where
  | init (mesh : Bool)
  | mesh (id : Option String) (connect : Option (List String))
  | phi (register : Register)
  | rot (register : Register)
  | bound (register : Register) (min max : Float)
  | flow (source target : Option String)
  | seek (node : Option String) (register : Register)
  | spiral (increment : UInt32) (register : Register)
  | cycle (count : UInt32) (start stop : Nat)
  | forge (id : Option String) (connect : List String)
  | sync (here remote : Float)
  | mask (node : Option String) (register : Register)
  | cryst (node : Option String)
  | spec
  | bloom
  | save (path : Option String)

namespace Instruction

def opcode : Instruction → Opcode
  | init .. => .init
  | mesh .. => .mesh
  | phi .. => .phi
  | rot .. => .rot
  | bound .. => .bound
  | flow .. => .flow
  | seek .. => .seek
  | spiral .. => .spiral
  | cycle .. => .cycle
  | forge .. => .forge
  | sync .. => .sync
  | mask .. => .mask
  | cryst .. => .cryst
  | spec => .spec
  | bloom => .bloom
  | save .. => .save

/-- The instruction that has every argument left out. -/
def default : Opcode → Instruction
  | .init => init false
  | .mesh => mesh none none
  | .phi => phi .a
  | .rot => rot .a
  | .bound => bound .a 0.0 turn
  | .flow => flow none none
  | .seek => seek none .a
  | .spiral => spiral 1 .a
  | .cycle => cycle 1 0 1
  | .forge => forge none []
  | .sync => sync 0.0 0.0
  | .mask => mask none .a
  | .cryst => cryst none
  | .spec => spec
  | .bloom => bloom
  | .save => save none

theorem opcode_default (op : Opcode) : (default op).opcode = op := by
  cases op <;> rfl

/-- The arguments given to an opcode. -/
structure Arguments where
  op : Opcode
  members : Json.Members

namespace Arguments

def value? (args : Arguments) (key : String) : Option Json :=
  (args.members.lookup key).filter (!·.isNull)

def invalid {α : Type} (args : Arguments) (key : String) (flaw : ArgumentFlaw) :
    Except RunError α :=
  .error (.invalidArgument args.op key flaw)

/-- Reads the argument under `key`, if it is given. -/
def get {α : Type} (args : Arguments) (key : String)
    (read : Json → Except ArgumentFlaw α) : Except RunError (Option α) :=
  match args.value? key with
  | none => .ok none
  | some value =>
    match read value with
    | .ok result => .ok (some result)
    | .error flaw => args.invalid key flaw

def expect {α : Type} (flaw : ArgumentFlaw) (found : Option α) : Except ArgumentFlaw α :=
  found.elim (.error flaw) .ok

def readBoolean (value : Json) : Except ArgumentFlaw Bool := expect .notBoolean value.boolean?

def readFloat (value : Json) : Except ArgumentFlaw Float := expect .notNumber value.float?

def readNatural (value : Json) : Except ArgumentFlaw Nat := expect .notNatural value.natural?

def readCount (value : Json) : Except ArgumentFlaw UInt32 := do
  let count ← readNatural value
  if count < UInt32.size then .ok (UInt32.ofNat count) else .error .countTooLarge

def readString (value : Json) : Except ArgumentFlaw String := expect .notString value.string?

/-- A list of strings; a string alone is a list of one. -/
def readStrings (value : Json) : Except ArgumentFlaw (List String) :=
  match value with
  | .string text => .ok [text]
  | .list items => expect .notStrings (items.mapM Json.string?)
  | _ => .error .notStrings

def readRegister (value : Json) : Except ArgumentFlaw Register := do
  let name ← readString value
  expect (.unknownRegister name) (Register.ofName? name)

def boolean (args : Arguments) (key : String) (default : Bool) : Except RunError Bool := do
  return (← args.get key readBoolean).getD default

def float (args : Arguments) (key : String) (default : Float) : Except RunError Float := do
  return (← args.get key readFloat).getD default

def natural (args : Arguments) (key : String) (default : Nat) : Except RunError Nat := do
  return (← args.get key readNatural).getD default

def count (args : Arguments) (key : String) (default : UInt32) : Except RunError UInt32 := do
  return (← args.get key readCount).getD default

def string? (args : Arguments) (key : String) : Except RunError (Option String) :=
  args.get key readString

def strings? (args : Arguments) (key : String) : Except RunError (Option (List String)) :=
  args.get key readStrings

/-- The register an instruction works on, the first one by default. -/
def register (args : Arguments) : Except RunError Register := do
  return (← args.get "register" readRegister).getD .a

end Arguments

/-- The instruction of an opcode and its arguments, which are read in a fixed order. -/
def ofArguments (op : Opcode) (members : Json.Members) : Except RunError Instruction :=
  let args : Arguments := ⟨op, members⟩
  match op with
  | .init => return init (← args.boolean "mesh" false)
  | .mesh => return mesh (← args.string? "id") (← args.strings? "connect")
  | .phi => return phi (← args.register)
  | .rot => return rot (← args.register)
  | .bound => return bound (← args.register) (← args.float "min" 0.0) (← args.float "max" turn)
  | .flow => return flow (← args.string? "from") (← args.string? "to")
  | .seek => return seek (← args.string? "node") (← args.register)
  | .spiral => return spiral (← args.count "increment" 1) (← args.register)
  | .cycle =>
    return cycle (← args.count "count" 1) (← args.natural "start" 0) (← args.natural "end" 1)
  | .forge => return forge (← args.string? "id") ((← args.strings? "connect").getD [])
  | .sync => return sync (← args.float "local" 0.0) (← args.float "remote" 0.0)
  | .mask => return mask (← args.string? "node") (← args.register)
  | .cryst => return cryst (← args.string? "node")
  | .spec => return spec
  | .bloom => return bloom
  | .save => return save (← args.string? "path")

end Instruction

/-- An instruction of a program, and whether it asks for a fork. -/
structure Step where
  instruction : Instruction
  forks : Bool

namespace Step

/-- The step of an opcode and its arguments; the fork flag is read first. -/
def ofArguments (op : Opcode) (members : Json.Members) : Except RunError Step := do
  let forks ← (⟨op, members⟩ : Instruction.Arguments).boolean "fork" false
  let instruction ← Instruction.ofArguments op members
  return { instruction, forks }

end Step

end SpiralMachine
