import SpiralMachine.Crystal.Basic
import SpiralMachine.Event
import SpiralMachine.Json.Document
import SpiralMachine.Mode

/-!
# Crystals as JSON

Each record of a crystal, and of what else a machine keeps, is written as an object of
its fields in a fixed order. It is read from such an object, whose fields may come in any
order and among others, but none twice, or from a list of its fields in order. Fields
with a default may be missing.
-/

set_option autoImplicit false

namespace SpiralMachine

namespace Json.Document

def string? : Document → Option String
  | .quoted pieces => Piece.text? pieces
  | _ => none

/-- A numeral of any form as a double. -/
def float? : Document → Option Float
  | .numeral number => number.float?
  | _ => none

/-- A whole numeral without a sign and below `bound`. -/
def natural? (bound : Nat) : Document → Option Nat
  | .numeral number => number.natural? bound
  | _ => none

def strings? : Document → Option (List String)
  | .list items => items.mapM string?
  | _ => none

/-- Members under their keys, in the order and with the repeats of the document. -/
def members? : Document → Option (List (String × Document))
  | .object members => members.mapM fun (key, value) ↦ (Piece.text? key).map (·, value)
  | _ => none

/-- The one value under a key; none inside if the key is missing, none at all if it is
repeated. -/
def single? (members : List (String × Document)) (key : String) : Option (Option Document) :=
  match members.filter (·.1 = key) with
  | [] => some none
  | [(_, value)] => some (some value)
  | _ => none

/-- The values of a record's fields in order, as far as they are given. -/
def fields? (names : List String) : Document → Option (List (Option Document))
  | .list items =>
    if items.length ≤ names.length then
      some (items.map some ++ List.replicate (names.length - items.length) none)
    else none
  | document => do names.mapM (single? (← document.members?))

/-- The name of a value without content, alone or as the key of null. -/
def unitName? : Document → Option String
  | .quoted pieces => Piece.text? pieces
  | .object [(key, .null)] => Piece.text? key
  | _ => none

/-- A field that is read if it is given. -/
def orDefault {α : Type} (default : α) (read : Document → Option α) :
    Option Document → Option α
  | some document => read document
  | none => some default

end Json.Document

open Json (Document)

namespace SpiralVector

def toJson (v : SpiralVector) : Json := .list (v.toList.map .real)

def ofDocument? : Document → Option SpiralVector
  | .list items => do ofList? (← items.mapM Document.float?)
  | _ => none

end SpiralVector

namespace Node

/-- The fields of a node in order. -/
def members (node : Node) : Json.Members :=
  [("vector", node.vector.toJson), ("memory", .object node.memory),
    ("connections", .list (node.connections.map .string)), ("resonance", .real node.resonance)]

def toJson (node : Node) : Json := .object node.members

/-- A memory is an object of values, `limit` deep at most. -/
def memory? (limit : Nat) (document : Document) : Option Json.Members :=
  match Json.ofDocument? limit document with
  | some (.object members) => some members
  | _ => none

/-- A node from its fields; all but the vector have a default. -/
def ofFields? (limit : Nat) : List (Option Document) → Option Node
  | [some vector, memory, connections, resonance] => do
    some
      { vector := ← SpiralVector.ofDocument? vector
        memory := ← Document.orDefault [] (memory? limit) memory
        connections := ← Document.orDefault [] Document.strings? connections
        resonance := ← Document.orDefault 1.0 Document.float? resonance }
  | _ => none

/-- A node, which with its memory is `limit` deep at most. -/
def ofDocument? (limit : Nat) (document : Document) : Option Node := do
  ofFields? (limit - 1)
    (← document.fields? ["vector", "memory", "connections", "resonance"])

end Node

/-- A node together with its id. -/
structure NamedNode where
  id : String
  node : Node

namespace NamedNode

def toJson (named : NamedNode) : Json := .object (("id", .string named.id) :: named.node.members)

def ofDocument? (limit : Nat) (document : Document) : Option NamedNode := do
  match ← document.fields? ["id", "vector", "memory", "connections", "resonance"] with
  | some id :: fields => some { id := ← id.string?, node := ← Node.ofFields? (limit - 1) fields }
  | _ => none

end NamedNode

namespace ResonanceEntry

def toJson (entry : ResonanceEntry) : Json :=
  .object [("op", .string entry.op), ("pre_resonance", .real entry.before),
    ("post_resonance", .real entry.after), ("delta", .real entry.delta)]

def ofDocument? (document : Document) : Option ResonanceEntry := do
  match ← document.fields? ["op", "pre_resonance", "post_resonance", "delta"] with
  | [some op, some before, some after, some delta] =>
    some
      { op := ← op.string?
        before := ← before.float?
        after := ← after.float?
        delta := ← delta.float? }
  | _ => none

end ResonanceEntry

namespace Crystal

def toJson (crystal : Crystal) : Json :=
  .object [
    ("mesh", .object (crystal.mesh.entries.map fun (id, node) ↦ (id, node.toJson))),
    ("registers", .object (crystal.registers.map fun (name, vector) ↦ (name, vector.toJson))),
    ("spiral_depth", .integer crystal.spiralDepth.toNat),
    ("resonance_log", .list (crystal.log.map ResonanceEntry.toJson))]

/-- Nodes under their ids. A repeated id gives its place a new node. -/
def mesh? (limit : Nat) (document : Document) : Option Mesh := do
  let entries ← (← document.members?).mapM fun (id, node) ↦
    (Node.ofDocument? (limit - 1) node).map (id, ·)
  some (Mesh.ofList entries)

/-- Vectors under any names; of a repeated name the last counts. -/
def registers? (document : Document) : Option (List (String × SpiralVector)) := do
  let entries ← (← document.members?).mapM fun (name, vector) ↦
    (SpiralVector.ofDocument? vector).map (name, ·)
  some (Keyed.ofList entries)

def log? : Document → Option (List ResonanceEntry)
  | .list entries => entries.mapM ResonanceEntry.ofDocument?
  | _ => none

/-- A crystal, whose every field must be given. -/
def ofDocument? (limit : Nat) (document : Document) : Option Crystal := do
  match ← document.fields? ["mesh", "registers", "spiral_depth", "resonance_log"] with
  | [some mesh, some registers, some depth, some log] =>
    some
      { mesh := ← mesh? (limit - 1) mesh
        registers := ← registers? registers
        spiralDepth := UInt32.ofNat (← depth.natural? UInt32.size)
        log := ← log? log }
  | _ => none

/-- The text in which a crystal is kept. -/
def text (crystal : Crystal) : String := Json.pretty.render crystal.toJson

def ofText? (text : String) : Option Crystal := do
  ofDocument? Json.depthLimit (← Document.ofText? text)

end Crystal

namespace Opcode

def ofDocument? (document : Document) : Option Opcode := do named? (← document.unitName?)

end Opcode

namespace Mode

def ofDocument? (document : Document) : Option Mode := do named? (← document.unitName?)

end Mode

namespace Register

def ofDocument? (document : Document) : Option Register := do named? (← document.unitName?)

end Register

namespace Lesson

def toJson (lesson : Lesson) : Json :=
  .object [("type", .string lesson.kind.name), ("vector", lesson.vector.toJson),
    ("lesson", .string lesson.lesson)]

def ofDocument? (document : Document) : Option Lesson := do
  match ← document.fields? ["type", "vector", "lesson"] with
  | [some kind, some vector, some text] =>
    some
      { kind := ← LessonKind.named? (← kind.unitName?)
        vector := ← SpiralVector.ofDocument? vector
        lesson := ← text.string? }
  | _ => none

end Lesson

namespace Failure

def toJson (failure : Failure) : Json :=
  .object [("op", .string failure.op), ("ip", .integer failure.ip),
    ("error", .string failure.error)]

def ofDocument? (document : Document) : Option Failure := do
  match ← document.fields? ["op", "ip", "error"] with
  | [some op, some ip, some error] =>
    some { op := ← op.string?, ip := ← ip.natural? UInt64.size, error := ← error.string? }
  | _ => none

end Failure

namespace Event

def ofDocument? (limit : Nat) (document : Document) : Option Event := do
  match ← document.fields? ["event_type", "payload", "timestamp_ms"] with
  | [some eventType, some payload, some timestamp] =>
    some
      { eventType := ← eventType.string?
        payload := ← Json.ofDocument? (limit - 1) payload
        timestampMs := ← timestamp.natural? (Nat.pow 2 128) }
  | _ => none

/-- The events of a file that has one on each line. -/
def ofLines? (text : String) : Option (List Event) :=
  ((text.splitOn "\n").filter (· ≠ "")).mapM fun line ↦ do
    ofDocument? Json.depthLimit (← Document.ofText? line)

end Event

end SpiralMachine
