import RemoteDebug.Json.Value

/-!
# Events

What a debugger reports without being asked, and the queue in which it waits to be fetched. The
queue holds 64 events, and while it is full further ones are lost.
-/

namespace RemoteDebug

/-- A report to the user. -/
inductive Event where
  | breakpointHit
  | connectionError (message : String)
  | connectionClosed
  deriving DecidableEq, Repr

/-- An event as JSON. -/
def Event.json : Event → Json
  | .breakpointHit => .object [("event", .string "breakpointHit")]
  | .connectionError message =>
    .object [("event", .string "connectionError"), ("message", .string message)]
  | .connectionClosed => .object [("event", .string "connectionClosed")]

/-- The line of text that reports an event. -/
def Event.line (e : Event) : String := e.json.render

/-- Events that wait to be fetched, the oldest first. -/
structure Mailbox where
  events : List Event
  deriving DecidableEq, Repr

namespace Mailbox

/-- The number of events a mailbox holds. -/
def capacity : Nat := 64

/-- A mailbox without events. -/
def empty : Mailbox := ⟨[]⟩

/-- Add an event, unless the mailbox is full. -/
def post (m : Mailbox) (e : Event) : Mailbox :=
  if m.events.length < capacity then ⟨m.events ++ [e]⟩ else m

/-- Fetch the oldest event. -/
def take (m : Mailbox) : Option Event × Mailbox :=
  match m.events with
  | [] => (none, m)
  | e :: events => (some e, ⟨events⟩)

end Mailbox

end RemoteDebug
