import SpiralMachine.Json.Document
import SpiralMachine.Tensor.Text
import SpiralMachine.Text.Blank

/-!
# Stack instructions

Values on the stack are numbers and tensors. An instruction is written as a mnemonic in
any case; only PUSH takes an operand, and the others pass one over.
-/

set_option autoImplicit false

namespace SpiralMachine

inductive StackValue where
  | scalar (value : Float)
  | tensor (value : Tensor)

namespace StackValue

/-- A number is a scalar and a list a tensor. -/
def ofJson : Json → Except StackError StackValue
  | .integer value => .ok (.scalar (Float.ofInt value))
  | .real value => .ok (.scalar value)
  | .list items => ((Tensor.ofJson (.list items)).map .tensor).mapError .invalidTensor
  | other => .error (.invalidTensor (.notNumeric other))

def kind : StackValue → String
  | scalar _ => "scalar"
  | tensor _ => "tensor"

def scalar? : StackValue → Option Float
  | scalar value => some value
  | tensor _ => none

def tensor? : StackValue → Option Tensor
  | scalar _ => none
  | tensor value => some value

def describe : StackValue → String
  | scalar value => floatText value
  | tensor value => value.describe

end StackValue

inductive StackInstruction where
  | push (value : StackValue)
  | pop
  | dup
  | swap
  | add
  | sub
  | mul
  | div
  | tensorAdd
  | tensorSub
  | tensorMul
  | tensorScale
  | tensorSum

namespace StackInstruction

def mnemonic : StackInstruction → String
  | push _ => "PUSH"
  | pop => "POP"
  | dup => "DUP"
  | swap => "SWAP"
  | add => "ADD"
  | sub => "SUB"
  | mul => "MUL"
  | div => "DIV"
  | tensorAdd => "T_ADD"
  | tensorSub => "T_SUB"
  | tensorMul => "T_MUL"
  | tensorScale => "T_SCALE"
  | tensorSum => "T_SUM"

/-- All instructions that take no operand. -/
def bare : List StackInstruction :=
  [pop, dup, swap, add, sub, mul, div, tensorAdd, tensorSub, tensorMul, tensorScale, tensorSum]

def pushOf (operand : Option Json) : Except StackError StackInstruction :=
  match operand with
  | none => .error (.missingOperand "PUSH")
  | some .null => .error (.missingOperand "PUSH")
  | some value => (StackValue.ofJson value).map push

/-- The instruction of a mnemonic and an operand. -/
def parse (text : String) (operand : Option Json) : Except StackError StackInstruction :=
  let name := Text.canonicalName text
  if name = "PUSH" then pushOf operand
  else match bare.find? (·.mnemonic = name) with
    | some instruction => .ok instruction
    | none => .error (.unknownMnemonic text)

/-- The instruction of an entry, a list that starts with a mnemonic. -/
def ofEntry (index : Nat) : Json → Except StackError StackInstruction
  | .list (.string text :: rest) => parse text rest.head?
  | .list _ => .error (.invalidProgram (.noMnemonic index))
  | _ => .error (.invalidProgram (.notEntry index))

/-- The instructions of a JSON text, a list of entries. -/
def parseProgram (text : String) : Except StackError (List StackInstruction) :=
  match Json.ofText? text with
  | some (.list entries) => entries.zipIdx.mapM fun (entry, index) ↦ ofEntry index entry
  | _ => .error (.invalidProgram .notList)

def describe : StackInstruction → String
  | push value => s!"PUSH {value.describe}"
  | instruction => instruction.mnemonic

end StackInstruction

end SpiralMachine
