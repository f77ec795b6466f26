import RemoteDebug.Gate

/-!
# The channel to a device

Replies carry no mark of the request they answer. So a channel lets one exchange go on at a time,
behind a gate with one permit, and whatever arrives is the reply to it. `pending` names the caller
who waits for a reply. Bytes that arrive when nobody waits are dropped.
-/

namespace RemoteDebug

/-- A channel, with callers named by `ι`. -/
structure Channel (ι : Type) where
  gate : Gate ι
  /-- The caller who waits for a reply. -/
  pending : Option ι
  connected : Bool
  deriving DecidableEq, Repr

namespace Channel

variable {ι : Type}

/-- The channel of a new connection. -/
def opened : Channel ι := ⟨Gate.new 1, none, true⟩

/-- The channel of no connection. -/
def shut : Channel ι := ⟨(Gate.new 1).close.1, none, false⟩

/-- Ask for the permit. -/
def enter (ch : Channel ι) (i : ι) : Channel ι × Gate.Admission :=
  let (gate, admission) := ch.gate.acquire i
  ({ ch with gate }, admission)

/-- Take the permit if it is free. -/
def tryEnter (ch : Channel ι) (i : ι) : Channel ι × Bool :=
  let (gate, granted) := ch.gate.tryAcquire i
  ({ ch with gate }, granted)

/-- Begin an exchange : the next bytes to arrive are for `i`. -/
def arm (ch : Channel ι) (i : ι) : Channel ι := { ch with pending := some i }

/-- Give up waiting for a reply. -/
def disarm (ch : Channel ι) : Channel ι := { ch with pending := none }

/-- Hand arriving bytes to the caller who waits for them, if there is one. -/
def deliver (ch : Channel ι) : Channel ι × Option ι := (ch.disarm, ch.pending)

/-- Close the channel. The callers in line and the one who waits for a reply fail. -/
def close (ch : Channel ι) : Channel ι × List ι :=
  let (gate, failed) := ch.gate.close
  ({ gate, pending := none, connected := false }, failed ++ ch.pending.toList)

variable [DecidableEq ι]

/-- Give the permit back. It goes to the first in line, who is named in the result. -/
def leave (ch : Channel ι) (i : ι) : Channel ι × Option ι :=
  let (gate, next) := ch.gate.release i
  ({ ch with gate }, next)

end Channel

end RemoteDebug
