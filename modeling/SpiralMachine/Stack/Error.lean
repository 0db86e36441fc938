import SpiralMachine.Json.Printer

/-!
# Errors of the stack machine

Everything that can go wrong with tensors, stack instructions and their operands, by
cause, with its wording. None of it is recovered from.
-/

set_option autoImplicit false

namespace SpiralMachine

/-- What is wrong with a nest of lists that should be a tensor. -/
inductive TensorFlaw where
  /-- Lists of one depth differ in length, or numbers stand at different depths. -/
  | ragged (depth : Nat)
  | notNumeric (value : Json)
  | shapeUnfit
  | described (text : String)

def TensorFlaw.message : TensorFlaw → String
  | ragged depth => s!"ragged nesting at depth {depth}"
  | notNumeric value => s!"expected a number or an array, found {Json.compact.render value}"
  | shapeUnfit => "the shape does not fit the number of elements"
  | described text => text

/-- What is wrong with the text of a stack program. -/
inductive StackProgramFlaw where
  | notList
  | notEntry (index : Nat)
  | noMnemonic (index : Nat)
  | described (text : String)
  deriving DecidableEq, Repr

def StackProgramFlaw.message : StackProgramFlaw → String
  | notList => "the text is not a JSON array"
  | notEntry index => s!"entry {index} is not an array"
  | noMnemonic index => s!"entry {index} has no mnemonic"
  | described text => text

inductive StackError where
  /-- An instruction found too few values. -/
  | underflow (op : String)
  | shapeMismatch (op : String) (left right : List Nat)
  | typeMismatch (op : String) (expected : String)
  | divisionByZero
  | invalidTensor (flaw : TensorFlaw)
  | missingOperand (op : String)
  | unknownMnemonic (text : String)
  | invalidProgram (flaw : StackProgramFlaw)

/-- Lengths between brackets. -/
def shapeText (shape : List Nat) : String :=
  "[" ++ String.intercalate ", " (shape.map fun length ↦ s!"{length}") ++ "]"

def StackError.message : StackError → String
  | underflow op => s!"{op}: stack underflow"
  | shapeMismatch op left right =>
    s!"{op}: shape mismatch {shapeText left} vs {shapeText right}"
  | typeMismatch op expected => s!"{op}: expected a {expected} operand"
  | divisionByZero => "DIV: division by zero"
  | invalidTensor flaw => s!"Invalid tensor: {flaw.message}"
  | missingOperand op => s!"{op}: missing operand"
  | unknownMnemonic text => s!"Unknown mnemonic '{text}'"
  | invalidProgram flaw => s!"Invalid stack program: {flaw.message}"

end SpiralMachine
