import RemoteDebug.Session.Basic

/-!
# Programs of a session

An operation of a session is a program of type `Prog`, a tree whose nodes are what it does and
what it waits for. It waits in three places only : for the permit to talk to the device
(`acquire`), for the reply to a request (`exchange`) and for time to pass (`sleep`). Between two of
these it is not interrupted. There the session may change under it, since the status poll goes on
in the background, so a program looks at the session (`look`) whenever it needs to know.

A program says nothing about who answers it. Running it against a simulated device is one way to
answer, an arbitrary environment another. Each wait reports how long it took.

`Op` adds failures to programs.
-/

namespace RemoteDebug

/-- How an exchange with the device ends. -/
inductive Outcome where
  | reply (bytes : Bytes)
  /-- No reply in time. -/
  | silence
  /-- The connection closed. -/
  | closed
  /-- The request could not be written. -/
  | broken (fault : Fault)
  deriving DecidableEq, Repr

/-- The reply to a request with opcode `op`, or why there is none. -/
def Outcome.reply? (op : Wire.Opcode) (timeout : UInt64) : Outcome → Except Failure Bytes
  | .reply bytes => .ok bytes
  | .silence => .error (.timeout op timeout)
  | .closed => .error .connectionClosed
  | .broken fault => .error (.io fault)

/-- A program that ends with a value of type `α`. -/
inductive Prog (α : Type) : Type where
  | done (a : α)
  /-- Look at the session. -/
  | look (k : Session → Prog α)
  /-- Change the session. -/
  | act (a : Act) (k : Prog α)
  /-- Reach for the device. -/
  | dial (k : Except Fault Unit → Prog α)
  /-- Wait for the permit. It is refused once the connection is closed. -/
  | acquire (k : (elapsed : Nat) → (admitted : Bool) → Prog α)
  /-- Send a request and wait for what comes back. -/
  | exchange (request : Bytes) (k : (elapsed : Nat) → Outcome → Prog α)
  /-- Give the permit back. -/
  | release (k : Prog α)
  /-- Let at least `ms` milliseconds pass. -/
  | sleep (ms : Nat) (k : (elapsed : Nat) → ms ≤ elapsed → Prog α)

namespace Prog

/-- Go on with another program. -/
def bind {α β : Type} : Prog α → (α → Prog β) → Prog β
  | .done a, f => f a
  | .look k, f => .look fun s => (k s).bind f
  | .act a k, f => .act a (k.bind f)
  | .dial k, f => .dial fun r => (k r).bind f
  | .acquire k, f => .acquire fun t admitted => (k t admitted).bind f
  | .exchange request k, f => .exchange request fun t o => (k t o).bind f
  | .release k, f => .release (k.bind f)
  | .sleep ms k, f => .sleep ms fun t h => (k t h).bind f

instance : Monad Prog where
  pure := .done
  bind := bind

end Prog

/-- An operation : a program that may fail. -/
abbrev Op := ExceptT Failure Prog

namespace Op

/-- The session. -/
def session : Op Session := ExceptT.mk (.look fun s => .done (.ok s))

/-- Change the session. -/
def act (a : Act) : Op Unit := ExceptT.mk (.act a (.done (.ok ())))

/-- Fail as a computation without effects does. -/
def ofExcept {ε α : Type} (f : ε → Failure) : Except ε α → Op α
  | .ok a => pure a
  | .error e => throw (f e)

/-- Reach for the device. -/
def dial : Op Unit := ExceptT.mk (.dial fun
  | .ok () => .done (.ok ())
  | .error fault => .done (.error (.io fault)))

/-- Let at least `ms` milliseconds pass. -/
def sleep (ms : Nat) : Op { elapsed : Nat // ms ≤ elapsed } :=
  ExceptT.mk (.sleep ms fun t h => .done (.ok ⟨t, h⟩))

/-- Wait for the permit. The value is the time it took. -/
def acquire : Op Nat := ExceptT.mk (.acquire fun t admitted =>
  .done (if admitted then .ok t else .error .connectionClosed))

/-- Go on, and give the permit back at the end, whatever the end is. -/
def releasing {α : Type} (op : Op α) : Op α :=
  ExceptT.mk (op.run.bind fun r => .release (.done r))

/-- Fail unless the session is connected. -/
def requireLink : Op Unit := do
  unless (← session).isConnected do throw .notConnected

/-- Send a request and wait for the reply, with the permit at hand. The value is the time it took
and the reply. A request without bytes counts as one with opcode 0. -/
def exchange (request : Bytes) : Op (Nat × Bytes) := do
  let s ← session
  if s.isConnected then
    ExceptT.mk (.exchange request fun t o =>
      .done ((t, ·) <$> o.reply? (request.headD 0) s.config.responseTimeout))
  else throw .connectionClosed

/-- Send a request and wait for the reply. -/
def send (request : Bytes) : Op Bytes := do
  let _ ← acquire
  let (_, reply) ← releasing (exchange request)
  return reply

/-- The reply that some bytes are to a request with opcode `op`. -/
def replyTo (op : Wire.Opcode) (bytes : Bytes) : Except Failure Wire.Reply := do
  let reply ← (Wire.Reply.decode bytes).mapError .protocol
  (reply.check op).mapError Failure.ofRefusal
  return reply

/-- Have the device carry out a command. -/
def command (p : Wire.Packet) : Op Wire.Reply := do
  let bytes ← send p.encode
  ofExcept id (replyTo p.opcode bytes)

/-- The status that some bytes report. -/
def statusIn (bytes : Bytes) : Except Failure Status := do
  let reply ← replyTo Wire.Opcode.readStatus bytes
  match reply.payload with
  | bits :: _ => return ⟨bits⟩
  | [] => throw (.protocol .noStatus)

/-- The request for the status. -/
def statusRequest : Bytes := (Wire.Packet.bare Wire.Opcode.readStatus).encode

/-- Take in the status of the device, with the permit at hand. The value is the time it took. -/
def refresh : Op Nat := do
  let (t, bytes) ← exchange statusRequest
  act (.reading (← ofExcept id (statusIn bytes)))
  return t

end Op

end RemoteDebug
