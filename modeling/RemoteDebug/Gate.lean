/-!
# A gate with a queue

A gate has a number of permits. A caller takes one if it is free (`tryAcquire`) or waits for it in
line (`acquire`). A permit that is given back goes to the first in line at once, so a gate with
callers in line has no permit to spare. A closed gate admits nobody : those in line fail when it
closes, and permits given back later are only counted.

This is how a gate over a semaphore looks if callers attend to their calls at once.
-/

namespace RemoteDebug

/-- A gate, with callers named by `ι`. -/
structure Gate (ι : Type) where
  /-- The number of free permits. -/
  available : Nat
  /-- The holders of the other permits. -/
  holders : List ι
  /-- The callers in line, the first of them at the head. -/
  waiting : List ι
  closed : Bool
  deriving DecidableEq, Repr

namespace Gate

variable {ι : Type}

/-- An open gate with all its permits. -/
def new (capacity : Nat) : Gate ι := ⟨capacity, [], [], false⟩

/-- Take a permit if one is free. The flag says whether it was. -/
def tryAcquire (g : Gate ι) (i : ι) : Gate ι × Bool :=
  match g.closed, g.available with
  | false, n + 1 => ({ g with available := n, holders := g.holders ++ [i] }, true)
  | _, _ => (g, false)

/-- What becomes of a caller who asks for a permit. -/
inductive Admission where
  | admitted | queued | refused
  deriving DecidableEq, Repr

/-- Take a permit, or wait for one in line. -/
def acquire (g : Gate ι) (i : ι) : Gate ι × Admission :=
  if g.closed then (g, .refused)
  else
    match g.tryAcquire i with
    | (g', true) => (g', .admitted)
    | (_, false) => ({ g with waiting := g.waiting ++ [i] }, .queued)

variable [DecidableEq ι]

/-- Give a permit back. It goes to the first in line, who is named in the result. -/
def release (g : Gate ι) (i : ι) : Gate ι × Option ι :=
  let g := { g with holders := g.holders.erase i }
  match g.waiting with
  | [] => ({ g with available := g.available + 1 }, none)
  | next :: line => ({ g with holders := g.holders ++ [next], waiting := line }, some next)

/-- Close the gate. Those in line fail and are named in the result. -/
def close (g : Gate ι) : Gate ι × List ι :=
  ({ g with waiting := [], closed := true }, g.waiting)

end Gate

end RemoteDebug
