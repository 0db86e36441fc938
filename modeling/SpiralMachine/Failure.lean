import SpiralMachine.Vector

/-!
# Failures and lessons

What is kept of a fault: the failure as it happened, and a lesson in the mansion, which
also takes in the findings of self-audits.
-/

set_option autoImplicit false

namespace SpiralMachine

/-- An instruction that failed: its opcode's name, its index and the reason. -/
structure Failure where
  op : String
  ip : Nat
  error : String
  deriving DecidableEq, Repr

/-- The failures in the order in which they were reported. -/
structure FailureLog where
  failures : List Failure
  deriving DecidableEq, Repr

namespace FailureLog

def empty : FailureLog := ⟨[]⟩

/-- Adds a failure, also one that was reported before. -/
def report (log : FailureLog) (failure : Failure) : FailureLog :=
  ⟨log.failures ++ [failure]⟩

/-- Whether a repair is advisable. -/
def suggestsRepair (log : FailureLog) : Bool := !log.failures.isEmpty

end FailureLog

/-- The greatest number of characters of a lesson. -/
def lessonLimit : Nat := 120

def lesson (text : String) : String := String.ofList (text.toList.take lessonLimit)

inductive LessonKind where
  /-- An instruction failed. -/
  | exception
  /-- A self-audit found the mesh incoherent. -/
  | resonanceCollapse
  deriving DecidableEq, Repr

namespace LessonKind

def all : List LessonKind := [exception, resonanceCollapse]

def name : LessonKind → String
  | exception => "exception"
  | resonanceCollapse => "resonance_collapse"

def named? (name : String) : Option LessonKind := all.find? (·.name = name)

end LessonKind

/-- A lesson with the vector that goes with it. -/
structure Lesson where
  kind : LessonKind
  vector : SpiralVector
  lesson : String

/-- What a self-audit notes about an incoherent mesh. -/
def collapseLesson : String := "Resonance collapse: mesh coherence fell below φ⁻¹"

/-- The lesson of a text, cut to the limit. -/
def Lesson.of (kind : LessonKind) (vector : SpiralVector) (text : String) : Lesson :=
  { kind, vector, lesson := SpiralMachine.lesson text }

end SpiralMachine
