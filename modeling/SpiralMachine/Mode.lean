import SpiralMachine.Text.Blank

/-!
# Execution modes

How far the effects of a run may reach. Only an executing run lets SAVE write; a
tracing run narrates; arming and forking are entered while a run goes on.
-/

set_option autoImplicit false

namespace SpiralMachine

inductive Mode where
  | simulate
  | trace
  | execute
  | arm
  | fork
  deriving DecidableEq, Repr, Inhabited

namespace Mode

def all : List Mode := [simulate, trace, execute, arm, fork]

def name : Mode → String
  | simulate => "SIMULATE"
  | trace => "TRACE"
  | execute => "EXECUTE"
  | arm => "ARM"
  | fork => "FORK"

/-- The name with only its first letter raised. -/
def title : Mode → String
  | simulate => "Simulate"
  | trace => "Trace"
  | execute => "Execute"
  | arm => "Arm"
  | fork => "Fork"

/-- Whether SAVE may write. -/
def allowsWrites (mode : Mode) : Bool := mode = execute

/-- Whether every instruction is told to the event sink. -/
def narrates (mode : Mode) : Bool := mode = trace

/-- The mode with exactly this name. -/
def named? (name : String) : Option Mode := all.find? (·.name = name)

/-- The mode a text names, blanks around it and case aside. -/
def ofName? (text : String) : Option Mode := named? (Text.canonicalName text)

/-- What is said of a text that names no mode. -/
def unknownMessage (text : String) : String :=
  s!"unknown execution mode '{Text.canonicalName text}'"

theorem ofName?_name (mode : Mode) : ofName? mode.name = some mode := by
  cases mode <;> rfl

end Mode

end SpiralMachine
