import SpiralMachine.Text.Blank

/-!
# Opcodes

The sixteen operators of the machine, each with a code, a short name, a glyph and a
description, and the everyday words that stand for some of them.
-/

set_option autoImplicit false

namespace SpiralMachine

inductive Opcode where
  | init
  | mesh
  | phi
  | rot
  | bound
  | flow
  | seek
  | spiral
  | cycle
  | forge
  | sync
  | mask
  | cryst
  | spec
  | bloom
  | save
  deriving DecidableEq, Repr, Inhabited

/-- Why an opcode could not be found. -/
inductive OpcodeError where
  | unknownCode (code : Nat)
  | unknownName (name : String)
  deriving DecidableEq, Repr

namespace Opcode

/-- All opcodes in the order of their codes. -/
def all : List Opcode :=
  [init, mesh, phi, rot, bound, flow, seek, spiral,
    cycle, forge, sync, mask, cryst, spec, bloom, save]

def code (op : Opcode) : Nat := op.ctorIdx

def ofCode? (code : Nat) : Option Opcode := all[code]?

def ofCode (code : Nat) : Except OpcodeError Opcode :=
  match ofCode? code with
  | some op => .ok op
  | none => .error (.unknownCode code)

theorem ofCode_code (op : Opcode) : ofCode op.code = .ok op := by
  cases op <;> rfl

theorem ofCode_of_lt {code : Nat} (h : 15 < code) : ofCode code = .error (.unknownCode code) := by
  have hnone : ofCode? code = none := List.getElem?_eq_none h
  rw [ofCode, hnone]

theorem exists_code {code : Nat} (h : code ≤ 15) : ∃ op : Opcode, op.code = code := by
  have hall : ∀ code ≤ 15, ∃ op ∈ all, op.code = code := by decide
  obtain ⟨op, -, hop⟩ := hall code h
  exact ⟨op, hop⟩

def name : Opcode → String
  | init => "INIT"
  | mesh => "MESH"
  | phi => "PHI"
  | rot => "ROT"
  | bound => "BOUND"
  | flow => "FLOW"
  | seek => "SEEK"
  | spiral => "SPIRAL"
  | cycle => "CYCLE"
  | forge => "FORGE"
  | sync => "SYNC"
  | mask => "MASK"
  | cryst => "CRYST"
  | spec => "SPEC"
  | bloom => "BLOOM"
  | save => "SAVE"

def glyph : Opcode → String
  | init => "⚡"
  | mesh => "⧉"
  | phi => "◉"
  | rot => "🌀"
  | bound => "📐"
  | flow => "🌊"
  | seek => "🔺"
  | spiral => "💫"
  | cycle => "♻️"
  | forge => "🔥"
  | sync => "✨"
  | mask => "🎭"
  | cryst => "💎"
  | spec => "🌈"
  | bloom => "✺"
  | save => "💾"

def description : Opcode → String
  | init => "Initialize/Reset"
  | mesh => "Network connection"
  | phi => "Golden ratio transform"
  | rot => "Rotate perspective"
  | bound => "Set boundaries"
  | flow => "Enable movement"
  | seek => "Navigate/search"
  | spiral => "Evolve upward"
  | cycle => "Iterate process"
  | forge => "Create/transmute"
  | sync => "Synchronize"
  | mask => "Transform identity"
  | cryst => "Crystallize pattern"
  | spec => "Spectrum analysis"
  | bloom => "Transform error to gift"
  | save => "Persist memory"

/-- The opcode with exactly this name. -/
def named? (name : String) : Option Opcode := all.find? (·.name = name)

/-- The opcode a text names, blanks around it and the case of ASCII letters aside. -/
def ofName (text : String) : Except OpcodeError Opcode :=
  match named? (Text.canonicalName text) with
  | some op => .ok op
  | none => .error (.unknownName text)

/-- Everyday words and what they stand for. -/
def sparkWords : List (String × Opcode) :=
  [("ignition", init), ("key", init), ("start", init), ("initialise", init),
    ("fire-up", forge), ("spin-up", spiral), ("run", flow), ("breath", flow),
    ("live", sync), ("beat", cycle), ("initiate", init), ("engage", sync),
    ("arm", mesh), ("stage", cycle), ("prepare", bound)]

/-- The opcode of a spark word in any case. -/
def ofWord? (word : String) : Option Opcode :=
  sparkWords.lookup (Text.lowerForAscii (Text.trim word))

end Opcode

/-- The version of the opcode table. -/
def version : String := "0.1.0"

/-- A code in hexadecimal, as messages show it. -/
def hexCode (code : Nat) : String :=
  "0x" ++ String.ofList ((Nat.toDigits 16 code).map Char.toUpper)

def OpcodeError.message : OpcodeError → String
  | .unknownCode code => s!"unknown opcode {hexCode code}"
  | .unknownName name => s!"unknown opcode name '{name}'"

/-- An opcode as a program gives it: by code, or by a name or spark word. -/
inductive OpcodeRef where
  | byCode (code : Nat)
  | byName (text : String)
  deriving DecidableEq, Repr

namespace OpcodeRef

def ofOpcode (op : Opcode) : OpcodeRef := .byCode op.code

/-- Names are tried before spark words. -/
def resolve : OpcodeRef → Except OpcodeError Opcode
  | .byCode code => Opcode.ofCode code
  | .byName text =>
    match Opcode.ofName text, Opcode.ofWord? text with
    | .ok op, _ => .ok op
    | .error _, some op => .ok op
    | .error cause, none => .error cause

def describe : OpcodeRef → String
  | .byCode code => hexCode code
  | .byName text => text

theorem resolve_ofOpcode (op : Opcode) : (ofOpcode op).resolve = .ok op :=
  op.ofCode_code

end OpcodeRef

end SpiralMachine
