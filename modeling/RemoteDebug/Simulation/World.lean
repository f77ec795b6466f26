import RemoteDebug.Channel
import RemoteDebug.FirstBest
import RemoteDebug.Simulation.Device

/-!
# A session in simulated time

A `World` is a session, a device and the channel between them, under a clock that moves only while
somebody waits. `World.run` runs a program in it. Transmission takes no time, so a wait ends with
the first of what is due : bytes on their way (`Arrival`), the end of a poll's patience, or the next
poll.

While a session is connected, its status is polled. A poll is due at every multiple of the polling
time after the connection was made, and is skipped if the channel is in use. A poll that came due
while the one before it was waiting for its reply is made up for when that ends, and then the next
one is due at the next multiple. Failures of a poll have no effect.
-/

namespace RemoteDebug

/-- The way to the device. -/
inductive Network where
  | reachable
  /-- Nobody listens at the address. -/
  | refusing
  /-- There is no route to the address. -/
  | unreachable
  deriving DecidableEq, Repr

/-- What reaching for the device comes to. -/
def Network.dial : Network → Except Fault Unit
  | .reachable => .ok ()
  | .refusing => .error .refused
  | .unreachable => .error .unreachable

/-- Who uses the channel. -/
inductive Caller where
  | client
  | poll
  deriving DecidableEq, Repr

/-- Bytes on their way from the device. -/
structure Arrival where
  due : Nat
  bytes : Bytes
  deriving DecidableEq, Repr

/-- A session and its device, at a moment in time. Times are in milliseconds. -/
structure World where
  session : Session
  mailbox : Mailbox
  clock : Nat
  network : Network
  device : Device
  channel : Channel Caller
  /-- When the next poll is due. -/
  nextPoll : Nat
  /-- When the poll that waits for its reply gives up. -/
  polling : Option Nat
  /-- Bytes on their way, in the order in which they were sent. -/
  transit : List Arrival
  /-- What has come for the client : the outcome of an exchange, or an empty reply as the permit. -/
  signal : Option Outcome
  /-- The requests that reached the device, each with what it did then. -/
  served : List (Bytes × Reaction)

namespace World

/-- A world in which nothing has happened. -/
def new (session : Session) (network : Network) (device : Device) : World where
  session := session
  mailbox := Mailbox.empty
  clock := 0
  network := network
  device := device
  channel := Channel.shut
  nextPoll := 0
  polling := none
  transit := []
  signal := none
  served := []

/-- The requests that reached the device. -/
def requests (w : World) : List Bytes := w.served.map Prod.fst

/-- The longest wait for a reply. -/
def timeout (w : World) : Nat := w.session.config.responseTimeout.toNat

/-- The time between two polls. -/
def period (w : World) : Nat := w.session.config.statusPoll.toNat

/-! ## The channel -/

/-- Change the session and report what the change reports. -/
def perform (w : World) (a : Act) : World :=
  let w := { w with
    mailbox := (w.session.events a).foldl Mailbox.post w.mailbox
    session := w.session.apply a }
  match a with
  | .connected =>
    { w with
      channel := Channel.opened
      nextPoll := w.clock + w.period
      polling := none
      transit := [] }
  | .disconnected => { w with channel := Channel.shut, polling := none, transit := [] }
  | _ => w

/-- The connection ends on the side of the device. Who waits for it fails. -/
def lose (w : World) (cause : Option Fault) : World :=
  let (channel, failed) := w.channel.close
  let w := { w with channel, polling := none, transit := [] }
  let w := if Caller.client ∈ failed then { w with signal := some .closed } else w
  w.perform (.lost cause)

/-- Give the permit back. The client may be next in line for it. -/
def leave (w : World) (caller : Caller) : World :=
  match w.channel.leave caller with
  | (channel, some .client) => { w with channel, signal := some (.reply []) }
  | (channel, _) => { w with channel }

/-- The number of bytes that are read at a time. -/
def readSize : Nat := 1024

/-- Bytes arrive. Those read first are for the caller who waits, and the others for nobody. -/
def arrive (w : World) (bytes : Bytes) : World × Option (Caller × Bytes) :=
  let (channel, caller) := w.channel.deliver
  ({ w with channel }, caller.map (·, bytes.take readSize))

/-- Write a request to the device. -/
def write (w : World) (request : Bytes) : World × Reaction :=
  let (device, reaction) := w.device.react request
  let served := if request = [] then w.served else w.served ++ [(request, reaction)]
  ({ w with device, served }, reaction)

/-! ## Polls -/

/-- A poll ends with the bytes of a reply, or without one. -/
def endPoll (w : World) (reply : Option Bytes) : World :=
  let w := { w with polling := none }
  let w := match reply.map Op.statusIn with
    | some (.ok status) => w.perform (.reading status)
    | _ => w
  w.leave .poll

/-- Make a poll, if the channel is free. -/
def poll (w : World) : World :=
  let late := w.clock - w.nextPoll
  let w := { w with nextPoll := w.nextPoll + (late / w.period + 1) * w.period }
  match w.channel.tryEnter .poll with
  | (_, false) => w
  | (channel, true) =>
    match { w with channel := channel.arm .poll }.write Op.statusRequest with
    | (w, .reply bytes 0) =>
      match w.arrive bytes with
      | (w, some (.poll, chunk)) => w.endPoll (some chunk)
      | (w, _) => w
    | (w, .reply bytes after) =>
      { w with
        transit := w.transit ++ [⟨w.clock + after, bytes⟩]
        polling := some (w.clock + w.timeout) }
    | (w, .silence) => { w with polling := some (w.clock + w.timeout) }
    | (w, .close) => w.lose none
    | (w, .reset) => w.lose (some .reset)

/-- A poll ends, and one that came due in the meantime is made up for. -/
def settlePoll (w : World) (reply : Option Bytes) : World :=
  let w := w.endPoll reply
  if w.session.isConnected ∧ w.nextPoll ≤ w.clock then w.poll else w

/-! ## Time -/

/-- What can come due. -/
inductive Due where
  | arrival (a : Arrival)
  /-- A poll gives up waiting. -/
  | giveUp
  | poll

/-- Everything that is due some time, with its time. -/
def agenda (w : World) : List (Nat × Due) :=
  w.transit.map (fun a => (a.due, Due.arrival a))
    ++ match w.polling with
      | some deadline => [(deadline, .giveUp)]
      | none => if w.session.isConnected then [(max w.clock w.nextPoll, .poll)] else []

/-- What is due first. -/
def nextDue (w : World) : Option (Nat × Due) :=
  firstBest (fun later earlier => later.1 < earlier.1) w.agenda

/-- Let happen what is due. -/
def fire (w : World) : Due → World
  | .arrival a =>
    match { w with transit := w.transit.erase a }.arrive a.bytes with
    | (w, some (.client, chunk)) => { w with signal := some (.reply chunk) }
    | (w, some (.poll, chunk)) => w.settlePoll (some chunk)
    | (w, none) => w
  | .giveUp => { w with channel := w.channel.disarm }.settlePoll none
  | .poll => w.poll

/-- Let happen what is due up to a time, at most `n` things, until a condition holds. -/
def waitFor (stop : World → Bool) (limit : Nat) : (n : Nat) → World → World
  | 0, w => w
  | n + 1, w =>
    if stop w then w
    else
      match w.nextDue with
      | some (due, what) =>
        if due ≤ limit then
          waitFor stop limit n ({ w with clock := max w.clock due }.fire what)
        else w
      | none => w

/-- More than can come due up to a time. Each millisecond brings at most two polls, and a poll
brings at most an arrival or an end of its patience. -/
def budget (w : World) (limit : Nat) : Nat :=
  8 * (limit - w.clock + 1) + w.transit.length

/-- Wait until a condition holds, at most to a time. -/
def waitUntil (w : World) (stop : World → Bool) (limit : Nat) : World :=
  let w := waitFor stop limit (w.budget limit) w
  if stop w then w else { w with clock := max w.clock limit }

/-- Let time pass. -/
def advance (w : World) (ms : Nat) : World := w.waitUntil (fun _ => false) (w.clock + ms)

/-- Wait for an event, at most for a time. -/
def receive (w : World) (ms : Nat) : Option Event × World :=
  let w := w.waitUntil (fun w => !w.mailbox.events.isEmpty) (w.clock + ms)
  let (event, mailbox) := w.mailbox.take
  (event, { w with mailbox })

/-! ## The client -/

/-- Ask for the permit. -/
def ask (w : World) : World :=
  match w.channel.enter .client with
  | (channel, .admitted) => { w with channel, signal := some (.reply []) }
  | (channel, .queued) => { w with channel, signal := none }
  | (channel, .refused) => { w with channel, signal := some .closed }

/-- Whether the permit was granted, after waiting for it. -/
def admission (w : World) : Bool × World :=
  (w.signal matches some (.reply _), { w with signal := none })

/-- Wait for the permit. It is free again when the poll gives up at the latest. -/
def waitPermit (w : World) : Bool × World :=
  (w.ask.waitUntil (·.signal.isSome) (w.polling.getD w.clock)).admission

/-- Take in what the device does with a request of the client. -/
def react (w : World) : Reaction → World
  | .reply bytes 0 =>
    match w.arrive bytes with
    | (w, some (_, chunk)) => { w with signal := some (.reply chunk) }
    | (w, none) => w
  | .reply bytes after => { w with transit := w.transit ++ [⟨w.clock + after, bytes⟩] }
  | .silence => w
  | .close => w.lose none
  | .reset => w.lose (some .reset)

/-- Send a request. -/
def issue (w : World) (request : Bytes) : World :=
  let (w, reaction) := { w with channel := w.channel.arm .client, signal := none }.write request
  w.react reaction

/-- What came back, after waiting for it. -/
def outcome (w : World) : Outcome × World :=
  match w.signal with
  | some o => (o, { w with signal := none })
  | none => (.silence, { w with channel := w.channel.disarm })

/-- Send a request and wait for what comes back. -/
def exchange (w : World) (request : Bytes) : Outcome × World :=
  ((w.issue request).waitUntil (·.signal.isSome) (w.clock + w.timeout)).outcome

/-- A request cannot be written. Who sent it does not wait for its reply. -/
def writeFails (w : World) (fault : Fault) : World :=
  match w.channel.deliver with
  | (channel, some .client) => { w with channel, signal := some (.broken fault) }
  | (channel, some .poll) => { w with channel }.settlePoll none
  | (channel, none) => { w with channel }

/-- Run a program. -/
def run {α : Type} : Prog α → World → α × World
  | .done a, w => (a, w)
  | .look k, w => run (k w.session) w
  | .act a k, w => run k (w.perform a)
  | .dial k, w => run (k w.network.dial) w
  | .acquire k, w =>
    let (admitted, w') := w.waitPermit
    run (k (w'.clock - w.clock) admitted) w'
  | .exchange request k, w =>
    let (outcome, w') := w.exchange request
    run (k (w'.clock - w.clock) outcome) w'
  | .release k, w => run k (w.leave .client)
  | .sleep ms k, w => run (k ms (Nat.le_refl ms)) (w.advance ms)

/-! ## The device -/

/-- Bytes that nobody asked for arrive from the device, if there is a connection. -/
def deviceSends (w : World) (bytes : Bytes) : World :=
  if w.session.isConnected ∧ bytes ≠ [] then w.fire (.arrival ⟨w.clock, bytes⟩) else w

/-- The device ends the connection, if there is one. -/
def deviceEnds (w : World) (cause : Option Fault) : World :=
  if w.session.isConnected then w.lose cause else w

end World

end RemoteDebug
