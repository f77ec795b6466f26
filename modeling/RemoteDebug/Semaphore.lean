import RemoteDebug.Failure

/-!
# A gate over a semaphore

A semaphore has permits, which callers take and give back. `Semaphore` names its operations and says
nothing about how they work. A caller who does not want to wait takes a permit if one is free
(`tryAcquire`). A caller who waits makes a call and polls it until it has an answer (`poll`), or
abandons it before that (`abandon`).

`Semaphore.Gate` is a gate over a semaphore, with the calls that were made on it. A call that
has its answer is over, and one that the closed semaphore turns down fails as a closed connection
does. `Semaphore.Gate.step` is the gate as a machine over the requests of its callers. When a call
is polled is not for the gate to say, so polls are requests too.

`Semaphore.fifo` is a semaphore that puts a permit which is given back aside for the first in line.
-/

namespace RemoteDebug

/-- What a poll says of a call for a permit. -/
inductive Semaphore.Poll where
  /-- The call has a permit. -/
  | ready
  | pending
  /-- The call will never have one. -/
  | closed
  deriving DecidableEq, Repr

/-- Why no permit can be taken. -/
inductive Semaphore.Denial where
  | noPermits
  | closed
  deriving DecidableEq, Repr

/-- The operations of a semaphore with states in `σ`. Calls for a permit have numbers. -/
structure Semaphore (σ : Type) where
  /-- A semaphore with some permits. -/
  new : (permits : Nat) → σ
  /-- The number of free permits. -/
  available : σ → Nat
  isClosed : σ → Bool
  /-- Take a permit if one is free. -/
  tryAcquire : σ → σ × Except Semaphore.Denial Unit
  /-- See what has become of a call. The first poll makes the call. -/
  poll : σ → Nat → σ × Semaphore.Poll
  /-- Forget a call. -/
  abandon : σ → Nat → σ
  /-- Give a permit back. -/
  release : σ → σ
  close : σ → σ

namespace Semaphore

/-! ## Gates -/

/-- A gate over a semaphore, with the calls on it. -/
structure Gate (σ : Type) where
  permits : σ
  /-- The calls that have a permit in use. -/
  holders : List Nat
  /-- The calls that wait for one, in the order in which they were made. -/
  waiting : List Nat
  /-- The number of calls so far. The next call has it as its number. -/
  calls : Nat
  deriving DecidableEq, Repr

namespace Gate

variable {σ : Type} (S : Semaphore σ)

/-- An open gate with all its permits. -/
def new (capacity : Nat) : Gate σ := ⟨S.new capacity, [], [], 0⟩

/-- The number of free permits. -/
def available (g : Gate σ) : Nat := S.available g.permits

def isClosed (g : Gate σ) : Bool := S.isClosed g.permits

/-- Take a permit if one is free. The flag says whether it was. -/
def tryAcquire (g : Gate σ) : Gate σ × Bool :=
  match S.tryAcquire g.permits with
  | (permits, .ok ()) => (⟨permits, g.holders ++ [g.calls], g.waiting, g.calls + 1⟩, true)
  | (permits, .error _) => (⟨permits, g.holders, g.waiting, g.calls + 1⟩, false)

/-- See what has become of a call. With an answer it is over, and the semaphore can forget it. -/
def poll (g : Gate σ) (t : Nat) : Gate σ × Option (Except Failure Unit) :=
  match S.poll g.permits t with
  | (permits, .pending) => ({ g with permits }, none)
  | (permits, .ready) =>
    ({ g with
      permits := S.abandon permits t
      holders := g.holders ++ [t]
      waiting := g.waiting.erase t }, some (.ok ()))
  | (permits, .closed) =>
    ({ g with
      permits := S.abandon permits t
      waiting := g.waiting.erase t }, some (.error .connectionClosed))

/-- Call for a permit, to wait for it. -/
def acquire (g : Gate σ) : Gate σ × Option (Except Failure Unit) :=
  { g with waiting := g.waiting ++ [g.calls], calls := g.calls + 1 }.poll S g.calls

/-- Give the permit of a call back. -/
def release (g : Gate σ) (t : Nat) : Gate σ :=
  { g with permits := S.release g.permits, holders := g.holders.erase t }

/-- Wait no longer. -/
def cancel (g : Gate σ) (t : Nat) : Gate σ :=
  { g with permits := S.abandon g.permits t, waiting := g.waiting.erase t }

/-- Close the gate. -/
def close (g : Gate σ) : Gate σ := { g with permits := S.close g.permits }

/-! ## The gate as a machine -/

/-- What callers ask of a gate. -/
inductive Request where
  | tryAcquire
  | acquire
  | poll (t : Nat)
  | release (t : Nat)
  | cancel (t : Nat)
  | close
  deriving DecidableEq, Repr

/-- What became of calls, each list in the order in which it happened. -/
structure Record where
  /-- The calls that were made to wait for a permit. -/
  started : List Nat := []
  /-- Those of them that have their answer. -/
  ended : List (Nat × Except Failure Unit) := []
  /-- Those of them that were given up. -/
  withdrawn : List Nat := []
  /-- The calls that took a free permit and would not have waited for it. -/
  taken : List Nat := []
  /-- The calls whose permit was given back. -/
  returned : List Nat := []

/-- One record after the other. -/
def Record.append (d e : Record) : Record where
  started := d.started ++ e.started
  ended := d.ended ++ e.ended
  withdrawn := d.withdrawn ++ e.withdrawn
  taken := d.taken ++ e.taken
  returned := d.returned ++ e.returned

/-- The calls that got the permit they were made to wait for. -/
def Record.admitted (d : Record) : List Nat :=
  d.ended.filterMap fun x => if x.2.isOk then some x.1 else none

/-- Serve a request. A call that does not wait cannot be polled or given up, and one that has no
permit cannot give it back. -/
def step (g : Gate σ) : Request → Gate σ × Record
  | .tryAcquire =>
    let (g', granted) := g.tryAcquire S
    (g', { taken := if granted then [g.calls] else [] })
  | .acquire =>
    let (g', r) := g.acquire S
    (g', { started := [g.calls], ended := r.toList.map (g.calls, ·) })
  | .poll t =>
    if t ∈ g.waiting then
      let (g', r) := g.poll S t
      (g', { ended := r.toList.map (t, ·) })
    else (g, {})
  | .release t => if t ∈ g.holders then (g.release S t, { returned := [t] }) else (g, {})
  | .cancel t => if t ∈ g.waiting then (g.cancel S t, { withdrawn := [t] }) else (g, {})
  | .close => (g.close S, {})

/-- The gate after some requests, and what became of calls by them. -/
def run (g : Gate σ) : List Request → Gate σ × Record
  | [] => (g, {})
  | r :: rs =>
    let (g', d) := g.step S r
    let (g'', e) := g'.run rs
    (g'', d.append e)

/-- Every call that waits is polled, the longest waiter first. -/
def attend (g : Gate σ) : Gate σ × Record := g.run S (g.waiting.map .poll)

end Gate

/-! ## A line of calls -/

/-- What is to be known of a semaphore. -/
structure View where
  /-- The number of free permits. -/
  available : Nat
  /-- The calls that wait for a permit, the longest waiter first. -/
  line : List Nat
  /-- The calls that a permit is put aside for. -/
  given : List Nat
  closed : Bool
  deriving DecidableEq, Repr

/-- A permit is given back. It is put aside for the first in line, and free if there is nobody. -/
def View.freed (v : View) : View :=
  match v.line with
  | [] => { v with available := v.available + 1 }
  | t :: line => { v with line, given := v.given ++ [t] }

/-- A semaphore that is no more than what is to be known of it. -/
def fifo : Semaphore View where
  new permits := ⟨permits, [], [], false⟩
  available := View.available
  isClosed := View.closed
  tryAcquire v :=
    if v.closed then (v, .error .closed)
    else
      match v.available with
      | 0 => (v, .error .noPermits)
      | n + 1 => ({ v with available := n }, .ok ())
  poll v t :=
    if v.closed then (v, .closed)
    else if t ∈ v.given then ({ v with given := v.given.erase t }, .ready)
    else if t ∈ v.line then (v, .pending)
    else
      match v.available with
      | 0 => ({ v with line := v.line ++ [t] }, .pending)
      | n + 1 => ({ v with available := n }, .ready)
  abandon v t :=
    if t ∈ v.given then { v with given := v.given.erase t }.freed
    else { v with line := v.line.erase t }
  release := View.freed
  close v := { v with line := [], closed := true }

end Semaphore

end RemoteDebug
