import SpiralMachine.Text.Blank
import SpiralMachine.Vector

/-!
# Registers

Four named slots, each always holding a vector.
-/

set_option autoImplicit false

namespace SpiralMachine

inductive Register where
  | a
  | b
  | c
  | d
  deriving DecidableEq, Repr, Inhabited

namespace Register

def all : List Register := [a, b, c, d]

theorem mem_all (register : Register) : register ∈ all := by
  cases register <;> decide

def name : Register → String
  | a => "A"
  | b => "B"
  | c => "C"
  | d => "D"

/-- The register with exactly this name. -/
def named? (name : String) : Option Register := all.find? (·.name = name)

/-- The register a text names, blanks around it and case aside. -/
def ofName? (text : String) : Option Register := named? (Text.canonicalName text)

/-- What is said of a text that names no register. -/
def unknownMessage (text : String) : String :=
  s!"unknown register '{Text.canonicalName text}'"

theorem ofName?_name (register : Register) : ofName? register.name = some register := by
  cases register <;> rfl

/-- A text stands for no register unless it is one of four letters, blanks around it and case
aside. -/
theorem ofName?_eq_none_iff {text : String} :
    ofName? text = none ↔ Text.raiseAscii (Text.trim text) ∉ ["A", "B", "C", "D"] := by
  rw [ofName?, named?, List.find?_eq_none]
  change (∀ register ∈ all, ¬decide (register.name = Text.raiseAscii (Text.trim text)) = true) ↔
    Text.raiseAscii (Text.trim text) ∉ all.map name
  simp only [decide_eq_true_eq, List.mem_map, not_exists, not_and]

theorem name_injective {register other : Register} (h : register.name = other.name) :
    register = other := by
  have hname := congrArg ofName? h
  rw [ofName?_name, ofName?_name] at hname
  exact Option.some.inj hname

end Register

structure RegisterFile where
  a : SpiralVector
  b : SpiralVector
  c : SpiralVector
  d : SpiralVector

namespace RegisterFile

def zero : RegisterFile := ⟨.zero, .zero, .zero, .zero⟩

def get (file : RegisterFile) : Register → SpiralVector
  | .a => file.a
  | .b => file.b
  | .c => file.c
  | .d => file.d

def set (file : RegisterFile) (register : Register) (vector : SpiralVector) : RegisterFile :=
  match register with
  | .a => { file with a := vector }
  | .b => { file with b := vector }
  | .c => { file with c := vector }
  | .d => { file with d := vector }

def modify (file : RegisterFile) (register : Register)
    (change : SpiralVector → SpiralVector) : RegisterFile :=
  file.set register (change (file.get register))

/-- The registers and what they hold, in order. -/
def toList (file : RegisterFile) : List (Register × SpiralVector) :=
  Register.all.map fun register ↦ (register, file.get register)

@[ext]
theorem ext {file other : RegisterFile}
    (h : ∀ register, file.get register = other.get register) : file = other := by
  cases file
  cases other
  have ha := h .a
  have hb := h .b
  have hc := h .c
  have hd := h .d
  simp only [get] at ha hb hc hd
  simp [ha, hb, hc, hd]

theorem get_set (file : RegisterFile) (register other : Register) (vector : SpiralVector) :
    (file.set register vector).get other = if other = register then vector else file.get other := by
  cases register <;> cases other <;> rfl

end RegisterFile

end SpiralMachine
