import RemoteDebug.Simulation.World
import Std.Async.DNS
import Std.Async.TCP
import Std.Async.Timer

/-!
# A session with a real device

`Live` runs programs of a session with a device that is reached over the network. It keeps a `World`
whose device does nothing by itself, moves the clock of that world with the clock of the host, sends
the requests the world issues, and brings in what comes over the connection. Whatever is to be
decided is decided by the world.
-/

namespace RemoteDebug

open Std.Async

/-- The number of an error of the host. Some of its layers report it with its sign turned. -/
def hostErrorCode : IO.Error → Nat
  | .alreadyExists _ code _ | .invalidArgument _ code _ | .permissionDenied _ code _
  | .resourceExhausted _ code _ | .inappropriateType _ code _ | .noSuchThing _ code _
  | .interrupted _ code _ | .noFileOrDirectory _ code _ | .otherError code _
  | .resourceBusy code _ | .resourceVanished code _ | .unsupportedOperation code _
  | .hardwareFault code _ | .unsatisfiedConstraints code _ | .illegalOperation code _
  | .protocolError code _ | .timeExpired code _ =>
    if code < 0x80000000 then code.toNat else (-code).toNat
  | .unexpectedEof | .userError _ => 0

/-- The fault that an error of the host is. -/
def Fault.ofHost (e : IO.Error) : Fault :=
  match hostErrorCode e with
  | 2 => .notFound
  | 20 => .notDirectory
  | 21 => .isDirectory
  | 36 => .nameTooLong
  | 101 => .unreachable
  | 104 => .reset
  | 111 => .refused
  | _ => .other (toString e)

/-- A session with a device that is reached over the network. -/
structure Live where
  world : IO.Ref World
  connection : IO.Ref (Option TCP.Socket.Client)
  /-- When the time of the world began, on the clock of the host. -/
  epoch : Nat

namespace Live

/-- A session that was never connected. -/
def new (session : Session) : IO Live := do
  let device : Device := { otherwise := .silent }
  return {
    world := ← IO.mkRef (World.new session .reachable device)
    connection := ← IO.mkRef none
    epoch := ← IO.monoMsNow }

/-- Move the clock of the world to the present, and read it. -/
def now (live : Live) : IO Nat := do
  let t := (← IO.monoMsNow) - live.epoch
  live.world.modify fun w => { w with clock := max w.clock t }
  return (← live.world.get).clock

/-- Send the requests that the world has issued. -/
def flush (live : Live) : IO Unit := do
  let requests ← live.world.modifyGet fun w => (w.requests, { w with served := [] })
  if let some c ← live.connection.get then
    for request in requests do
      try (c.send (ByteArray.mk request.toArray)).block
      catch e => live.world.modify (·.writeFails (.ofHost e))

/-- Let go of the connection. -/
def hangUp (live : Live) : IO Unit := do
  if let some c ← live.connection.modifyGet fun c => (c, none) then
    try c.shutdown.block catch _ => pure ()

/-- Connect to the first of some addresses that can be reached, or report why the last one
cannot. -/
def dialEach (live : Live) (port : UInt16) (fault : Fault) :
    List Std.Net.IPAddr → IO (Except Fault Unit)
  | [] => return .error fault
  | address :: addresses => do
    try
      let c ← TCP.Socket.Client.mk
      match address with
      | .v4 a => (c.connect (.v4 ⟨a, port⟩)).block
      | .v6 a => (c.connect (.v6 ⟨a, port⟩)).block
      c.noDelay
      live.connection.set (some c)
      return .ok ()
    catch e => dialEach live port (.ofHost e) addresses

/-- Reach for the device. -/
def dial (live : Live) : IO (Except Fault Unit) := do
  let config := (← live.world.get).session.config
  try
    let addresses ← (DNS.getAddrInfo config.host "").block
    live.dialEach config.port (.other "could not resolve to any addresses") addresses.toList
  catch e => return .error (.ofHost e)

/-- What a wait ends with. -/
inductive Arrived (α : Type) where
  /-- Bytes from the device, or the end of the connection. -/
  | bytes (chunk : Option ByteArray)
  /-- The connection failed. -/
  | failure (fault : Fault)
  | input (a : α)
  | time

/-- The longest wait without a look at the world. -/
def patience : Nat := 1000

/-- Wait for the device and other input, for some milliseconds at most. -/
def listen {α : Type} (live : Live) (input : Option (Selector α)) (ms : Nat) :
    IO (Arrived α) := do
  let timer ← (Selector.sleep (.ofNat (min ms patience))).block
  let mut sources : Array (Selectable (Arrived α)) := #[.case timer fun _ => pure .time]
  if let some c ← live.connection.get then
    sources := sources.push (.case (c.recvSelector World.readSize.toUInt64) (pure ∘ .bytes))
  if let some selector := input then
    sources := sources.push (.case selector (pure ∘ .input))
  try (Selectable.one sources).block
  catch e => return .failure (.ofHost e)

/-- Wait until a condition holds, for other input, or to a time. -/
partial def wait {α : Type} (live : Live) (input : Option (Selector α)) (stop : World → Bool)
    (limit : Option Nat) : IO (Option α) := do
  live.flush
  let t ← live.now
  let w ← live.world.get
  if stop w then return none
  match w.nextDue with
  | some (due, what) =>
    if due ≤ t then
      live.world.set (w.fire what)
      live.wait input stop limit
    else rest t (match limit with | some l => min due l | none => due)
  | none => rest t (limit.getD (t + patience))
where
  /-- Wait for the outside, to a time. -/
  rest (t due : Nat) : IO (Option α) := do
    if limit.any (· ≤ t) then return none
    match ← live.listen input (due - t) with
    | .bytes (some chunk) => live.world.modify (·.deviceSends chunk.toList)
    | .bytes none => lose none
    | .failure fault => lose (some fault)
    | .input a => return some a
    | .time => pure ()
    live.wait input stop limit
  /-- The connection is gone. -/
  lose (cause : Option Fault) : IO Unit := do
    live.hangUp
    live.world.modify (·.deviceEnds cause)

/-- Wait until a condition holds, at most to a time. -/
def waitUntil (live : Live) (stop : World → Bool) (limit : Option Nat) : IO Unit := do
  let _ ← live.wait (none : Option (Selector Unit)) stop limit

/-- Run a program. -/
def run {α : Type} (live : Live) : Prog α → IO α
  | .done a => return a
  | .look k => do live.run (k (← live.world.get).session)
  | .act a k => do
    let _ ← live.now
    live.world.modify (·.perform a)
    if a = .disconnected then live.hangUp
    live.run k
  | .dial k => do live.run (k (← live.dial))
  | .acquire k => do
    let start ← live.now
    live.world.modify World.ask
    live.waitUntil (·.signal.isSome) none
    let admitted ← live.world.modifyGet World.admission
    live.run (k ((← live.now) - start) admitted)
  | .exchange request k => do
    let start ← live.now
    live.world.modify (·.issue request)
    live.waitUntil (·.signal.isSome) (some (start + (← live.world.get).timeout))
    let outcome ← live.world.modifyGet World.outcome
    live.run (k ((← live.now) - start) outcome)
  | .release k => do
    live.world.modify (·.leave .client)
    live.run k
  | .sleep ms k => do
    let start ← live.now
    live.waitUntil (fun _ => false) (some (start + ms))
    let elapsed := (← live.now) - start
    live.run (k (max ms elapsed) (Nat.le_max_left ms elapsed))

/-- Fetch the events that wait. -/
def events (live : Live) : IO (List Event) :=
  live.world.modifyGet fun w => (w.mailbox.events, { w with mailbox := Mailbox.empty })

end Live

end RemoteDebug
