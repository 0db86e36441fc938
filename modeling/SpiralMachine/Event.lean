import SpiralMachine.FileTree

/-!
# Events

What a machine tells of its run. An event has a type, an object of details and a time.
A sink takes events to memory or to the end of a file, one line each; one that cannot
take an event lets it go, so that no sink changes a run.
-/

set_option autoImplicit false

namespace SpiralMachine

structure Event where
  eventType : String
  payload : Json
  timestampMs : Nat

inductive EventError where
  | payloadNotObject (eventType : String)
  deriving DecidableEq, Repr

def EventError.message : EventError → String
  | payloadNotObject eventType => s!"payload for event '{eventType}' must be a JSON object"

namespace Event

/-- An event at a time; its details must be an object. -/
def new (eventType : String) (payload : Json) (timestampMs : Nat) : Except EventError Event :=
  match payload with
  | .object _ => .ok { eventType, payload, timestampMs }
  | _ => .error (.payloadNotObject eventType)

def toJson (event : Event) : Json :=
  .object [("event_type", .string event.eventType), ("payload", event.payload),
    ("timestamp_ms", .integer event.timestampMs)]

/-- The line that stands for an event in a file. -/
def line (event : Event) : String := Json.compact.render event.toJson ++ "\n"

end Event

/-- Where events go. -/
inductive EventSink where
  | none
  | memory
  | journal (path : String)
  deriving DecidableEq, Repr

/-- What a machine works in: files, the events kept in memory, and the time. -/
structure Host where
  files : FileTree
  events : List Event
  clockMs : Nat

namespace Host

/-- Hands an event to a sink. -/
def record (host : Host) (event : Event) : EventSink → Host
  | .none => host
  | .memory => { host with events := host.events ++ [event] }
  | .journal path => { host with files := (host.files.store path (· ++ event.line)).1 }

/-- Tells a sink of an event with these details. -/
def emit (host : Host) (sink : EventSink) (eventType : String) (details : Json.Members) : Host :=
  host.record { eventType, payload := .object details, timestampMs := host.clockMs } sink

end Host

end SpiralMachine
