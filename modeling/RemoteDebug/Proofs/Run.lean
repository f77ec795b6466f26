import RemoteDebug.Session.Breakpoints
import RemoteDebug.Session.Connection
import RemoteDebug.Session.Control

/-!
# Runs of a session

A program says what it does and where it waits, and nothing about who answers it. `Runs` is every
way in which a program can go on : each wait ends in any way and after any time, and while it lasts
the background goes on (`Idle`). Polls ask for the status and get any answer, and the device may be
gone at any time. A run may also stop where the program waits, so that a law about runs is a law
about every state in which somebody else can see the session.

This allows more than the gate and the device do. A poll may end while the client waits for a reply,
and the end of a poll need not follow its beginning. A law about all runs does not depend on it, and
holds in every world, since what a program does in a world is one of its runs.

What happens is recorded as a list of `Moment`s, each with the session just before it and the call
in whose course it happened. `Reaches` puts calls one after the other : it is every state that a
client can bring a session into, with everything that happened on the way. A call may be abandoned
where it waits.
-/

namespace RemoteDebug

/-! ## Calls -/

/-- What a client asks of a session. -/
inductive Call where
  | connect
  | disconnect
  | sendRaw (request : Bytes)
  /-- Classes are loaded, some of them in the place of others. -/
  | load (registry : Registry)
  | setBreakpoints (lines : List UInt32) (source : String)
  | removeAllBreakpoints
  | resume
  | stop
  | stepIn
  | stackFrame (index : UInt32)
  | stackFrames
  deriving DecidableEq, Repr

/-- The program of an operation, without its value. -/
def Op.program {α : Type} (op : Op α) : Prog Unit := op.run.bind fun _ => .done ()

/-- The program of a call. -/
def Call.program : Call → Prog Unit
  | .connect => Op.connect.program
  | .disconnect => Op.disconnect.program
  | .sendRaw request => (Op.sendRaw request).program
  | .load registry => (Op.act (.loaded registry)).program
  | .setBreakpoints lines source => (Op.setBreakpoints lines source).program
  | .removeAllBreakpoints => Op.removeAllBreakpoints.program
  | .resume => Op.resume.program
  | .stop => Op.stop.program
  | .stepIn => Op.stepIn.program
  | .stackFrame index => (Op.stackFrame index).program
  | .stackFrames => Op.stackFrames.program

/-! ## Moments -/

/-- Something that happens. -/
inductive Happening where
  /-- The session changes. -/
  | acted (a : Act)
  /-- A request goes to the device. -/
  | sent (request : Bytes)
  /-- The wait for the reply to a request is over. -/
  | ended (request : Bytes) (outcome : Outcome)
  deriving DecidableEq, Repr

/-- Something that happens, and when. -/
structure Moment where
  /-- The call that brings it about. What happens in the background has none. -/
  call : Option Call
  /-- The session just before. -/
  session : Session
  what : Happening
  deriving DecidableEq, Repr

/-- What has happened, the earliest first. -/
abbrev History := List Moment

/-! ## Runs -/

/-- One thing that goes on in the background. There are polls only while there is a connection to
let go of. -/
inductive Stirs : Session → History → Session → Prop where
  /-- A poll asks for the status. -/
  | asks {s : Session} (hs : s.link ≠ .absent) : Stirs s [⟨none, s, .sent Op.statusRequest⟩] s
  /-- A poll ends without a status. -/
  | misses (s : Session) (o : Outcome) : Stirs s [⟨none, s, .ended Op.statusRequest o⟩] s
  /-- A poll ends with a status. -/
  | reads {s : Session} {bytes : Bytes} {status : Status} (hs : s.link ≠ .absent)
      (hb : Op.statusIn bytes = .ok status) :
      Stirs s [⟨none, s, .ended Op.statusRequest (.reply bytes)⟩,
        ⟨none, s, .acted (.reading status)⟩] (s.apply (.reading status))
  /-- The device is gone. -/
  | loses (s : Session) (cause : Option Fault) :
      Stirs s [⟨none, s, .acted (.lost cause)⟩] (s.apply (.lost cause))

/-- What goes on in the background. -/
inductive Idle : Session → History → Session → Prop where
  | nil (s : Session) : Idle s [] s
  | cons {s s₁ s' : Session} {l l' : History} (h : Stirs s l s₁) (rest : Idle s₁ l' s') :
      Idle s (l ++ l') s'

/-- The runs of a program of the call `c` from a session : what happens, the session after it, and
the value of the program, if it is not still waiting. -/
inductive Runs {α : Type} (c : Option Call) :
    Prog α → Session → History → Session → Option α → Prop where
  | done (a : α) (s : Session) : Runs c (.done a) s [] s (some a)
  | look {k : Session → Prog α} {s s' : Session} {l : History} {r : Option α}
      (h : Runs c (k s) s l s' r) : Runs c (.look k) s l s' r
  | act {a : Act} {k : Prog α} {s s' : Session} {l : History} {r : Option α}
      (h : Runs c k (s.apply a) l s' r) : Runs c (.act a k) s (⟨c, s, .acted a⟩ :: l) s' r
  | dialing (k : Except Fault Unit → Prog α) (s : Session) : Runs c (.dial k) s [] s none
  | dial {k : Except Fault Unit → Prog α} {s s' : Session} {l : History} {r : Option α}
      (o : Except Fault Unit) (h : Runs c (k o) s l s' r) : Runs c (.dial k) s l s' r
  | acquiring (k : Nat → Bool → Prog α) {s s' : Session} {b : History} (hb : Idle s b s') :
      Runs c (.acquire k) s b s' none
  | acquire {k : Nat → Bool → Prog α} {s s₁ s' : Session} {b l : History} {r : Option α} (t : Nat)
      (admitted : Bool) (hb : Idle s b s₁) (h : Runs c (k t admitted) s₁ l s' r) :
      Runs c (.acquire k) s (b ++ l) s' r
  | exchanging (k : Nat → Outcome → Prog α) {s s' : Session} {request : Bytes} {b : History}
      (hb : Idle s b s') :
      Runs c (.exchange request k) s (⟨c, s, .sent request⟩ :: b) s' none
  | exchange {k : Nat → Outcome → Prog α} {s s₁ s' : Session} {request : Bytes} {b l : History}
      {r : Option α} (t : Nat) (o : Outcome) (hb : Idle s b s₁) (h : Runs c (k t o) s₁ l s' r) :
      Runs c (.exchange request k) s
        (⟨c, s, .sent request⟩ :: b ++ ⟨c, s₁, .ended request o⟩ :: l) s' r
  | release {k : Prog α} {s s' : Session} {l : History} {r : Option α} (h : Runs c k s l s' r) :
      Runs c (.release k) s l s' r
  | sleeping {ms : Nat} (k : (t : Nat) → ms ≤ t → Prog α) {s s' : Session} {b : History}
      (hb : Idle s b s') : Runs c (.sleep ms k) s b s' none
  | sleep {ms : Nat} {k : (t : Nat) → ms ≤ t → Prog α} {s s₁ s' : Session} {b l : History}
      {r : Option α} (t : Nat) (ht : ms ≤ t) (hb : Idle s b s₁) (h : Runs c (k t ht) s₁ l s' r) :
      Runs c (.sleep ms k) s (b ++ l) s' r

/-- Runs of two programs make a run of both in a row. -/
theorem Runs.bind {α β : Type} {c : Option Call} {p : Prog α} {f : α → Prog β} {s s₁ s' : Session}
    {l₁ l₂ : History} {a : α} {r : Option β} (h₁ : Runs c p s l₁ s₁ (some a))
    (h₂ : Runs c (f a) s₁ l₂ s' r) : Runs c (p.bind f) s (l₁ ++ l₂) s' r := by
  induction p generalizing s l₁ with
  | done b =>
    cases h₁
    exact h₂
  | look k ih =>
    cases h₁ with
    | look h => exact .look (ih s h)
  | act b k ih =>
    cases h₁ with
    | act h => exact .act (ih h)
  | dial k ih =>
    cases h₁ with
    | dial o h => exact .dial o (ih o h)
  | acquire k ih =>
    cases h₁ with
    | acquire t admitted hb h =>
      rw [List.append_assoc]
      exact .acquire t admitted hb (ih t admitted h)
  | exchange request k ih =>
    cases h₁ with
    | exchange t o hb h => simpa using .exchange t o hb (ih t o h)
  | release k ih =>
    cases h₁ with
    | release h => exact .release (ih h)
  | sleep ms k ih =>
    cases h₁ with
    | sleep t ht hb h =>
      rw [List.append_assoc]
      exact .sleep t ht hb (ih t ht h)

/-- A run of two programs in a row is a run of the first, or a run of both. -/
theorem Runs.of_bind {α β : Type} {c : Option Call} {p : Prog α} {f : α → Prog β} :
    ∀ {s s' : Session} {l : History} {r : Option β}, Runs c (p.bind f) s l s' r →
      (r = none ∧ Runs c p s l s' none) ∨
        ∃ a s₁ l₁ l₂, l = l₁ ++ l₂ ∧ Runs c p s l₁ s₁ (some a) ∧ Runs c (f a) s₁ l₂ s' r := by
  induction p with
  | done a =>
    intro s s' l r h
    exact Or.inr ⟨a, s, [], l, rfl, .done a s, h⟩
  | look k ih =>
    intro s s' l r h
    cases h with
    | look h =>
      rcases ih s h with ⟨rfl, hp⟩ | ⟨a, s₁, l₁, l₂, rfl, hp, hf⟩
      · exact Or.inl ⟨rfl, .look hp⟩
      · exact Or.inr ⟨a, s₁, l₁, l₂, rfl, .look hp, hf⟩
  | act a k ih =>
    intro s s' l r h
    cases h with
    | act h =>
      rcases ih h with ⟨rfl, hp⟩ | ⟨b, s₁, l₁, l₂, rfl, hp, hf⟩
      · exact Or.inl ⟨rfl, .act hp⟩
      · exact Or.inr ⟨b, s₁, _, l₂, rfl, .act hp, hf⟩
  | dial k ih =>
    intro s s' l r h
    cases h with
    | dialing => exact Or.inl ⟨rfl, .dialing k s⟩
    | dial o h =>
      rcases ih o h with ⟨rfl, hp⟩ | ⟨a, s₁, l₁, l₂, rfl, hp, hf⟩
      · exact Or.inl ⟨rfl, .dial o hp⟩
      · exact Or.inr ⟨a, s₁, l₁, l₂, rfl, .dial o hp, hf⟩
  | acquire k ih =>
    intro s s' l r h
    cases h with
    | acquiring _ hb => exact Or.inl ⟨rfl, .acquiring k hb⟩
    | acquire t admitted hb h =>
      rcases ih t admitted h with ⟨rfl, hp⟩ | ⟨a, s₁, l₁, l₂, rfl, hp, hf⟩
      · exact Or.inl ⟨rfl, .acquire t admitted hb hp⟩
      · exact Or.inr ⟨a, s₁, _, l₂, by rw [List.append_assoc], .acquire t admitted hb hp, hf⟩
  | exchange request k ih =>
    intro s s' l r h
    cases h with
    | exchanging _ hb => exact Or.inl ⟨rfl, .exchanging k hb⟩
    | exchange t o hb h =>
      rcases ih t o h with ⟨rfl, hp⟩ | ⟨a, s₁, l₁, l₂, rfl, hp, hf⟩
      · exact Or.inl ⟨rfl, .exchange t o hb hp⟩
      · exact Or.inr ⟨a, s₁, _, l₂, by simp, .exchange t o hb hp, hf⟩
  | release k ih =>
    intro s s' l r h
    cases h with
    | release h =>
      rcases ih h with ⟨rfl, hp⟩ | ⟨a, s₁, l₁, l₂, rfl, hp, hf⟩
      · exact Or.inl ⟨rfl, .release hp⟩
      · exact Or.inr ⟨a, s₁, l₁, l₂, rfl, .release hp, hf⟩
  | sleep ms k ih =>
    intro s s' l r h
    cases h with
    | sleeping _ hb => exact Or.inl ⟨rfl, .sleeping k hb⟩
    | sleep t ht hb h =>
      rcases ih t ht h with ⟨rfl, hp⟩ | ⟨a, s₁, l₁, l₂, rfl, hp, hf⟩
      · exact Or.inl ⟨rfl, .sleep t ht hb hp⟩
      · exact Or.inr ⟨a, s₁, _, l₂, by rw [List.append_assoc], .sleep t ht hb hp, hf⟩

/-- A run of two operations in a row is a run of the first that waits or fails, or a run of
both. -/
theorem Runs.of_op_bind {α β : Type} {c : Option Call} {op : Op α} {f : α → Op β} {s s' : Session}
    {l : History} {r : Option (Except Failure β)} (h : Runs c (op >>= f).run s l s' r) :
    (r = none ∧ Runs c op.run s l s' none) ∨
      (∃ e, r = some (.error e) ∧ Runs c op.run s l s' (some (.error e))) ∨
      ∃ a s₁ l₁ l₂, l = l₁ ++ l₂ ∧ Runs c op.run s l₁ s₁ (some (.ok a)) ∧
        Runs c (f a).run s₁ l₂ s' r := by
  rcases Runs.of_bind h with ⟨rfl, h₁⟩ | ⟨a, s₁, l₁, l₂, rfl, h₁, h₂⟩
  · exact Or.inl ⟨rfl, h₁⟩
  · cases a with
    | error e =>
      cases h₂
      rw [List.append_nil]
      exact Or.inr (Or.inl ⟨e, rfl, h₁⟩)
    | ok a => exact Or.inr (Or.inr ⟨a, s₁, l₁, l₂, rfl, h₁, h₂⟩)

/-! ## Reachable sessions -/

/-- The sessions that calls of the kind `allowed` lead to, with what happened on the way. -/
inductive Reaches (allowed : Call → Prop) (start : Session) : History → Session → Prop where
  | refl : Reaches allowed start [] start
  /-- The client makes a call and sees it through, or abandons it where it waits. -/
  | call {h l : History} {s s' : Session} {r : Option Unit} (hr : Reaches allowed start h s)
      (c : Call) (hc : allowed c) (hl : Runs (some c) c.program s l s' r) :
      Reaches allowed start (h ++ l) s'
  /-- Nobody calls. -/
  | idle {h b : History} {s s' : Session} (hr : Reaches allowed start h s) (hb : Idle s b s') :
      Reaches allowed start (h ++ b) s'

/-! ## Replays -/

/-- The run in which the exchanges end as told, one after the other, and the background is quiet.
Without an outcome left the program goes on waiting. -/
def Prog.replay {α : Type} (c : Option Call) :
    Prog α → Session → List Outcome → History × Session × Option α
  | .done a, s, _ => ([], s, some a)
  | .look k, s, os => (k s).replay c s os
  | .act a k, s, os =>
    let r := k.replay c (s.apply a) os
    (⟨c, s, .acted a⟩ :: r.1, r.2)
  | .dial k, s, os => (k (.ok ())).replay c s os
  | .acquire k, s, os => (k 0 true).replay c s os
  | .exchange request _, s, [] => ([⟨c, s, .sent request⟩], s, none)
  | .exchange request k, s, o :: os =>
    let r := (k 0 o).replay c s os
    (⟨c, s, .sent request⟩ :: ⟨c, s, .ended request o⟩ :: r.1, r.2)
  | .release k, s, os => k.replay c s os
  | .sleep ms k, s, os => (k ms (Nat.le_refl ms)).replay c s os

theorem Prog.runs_replay {α : Type} (c : Option Call) (p : Prog α) (s : Session)
    (os : List Outcome) :
    Runs c p s (p.replay c s os).1 (p.replay c s os).2.1 (p.replay c s os).2.2 := by
  induction p generalizing s os with
  | done a => exact .done a s
  | look k ih => exact .look (ih s s os)
  | act a k ih => exact .act (ih (s.apply a) os)
  | dial k ih => exact .dial (.ok ()) (ih (.ok ()) s os)
  | acquire k ih => exact .acquire 0 true (.nil s) (ih 0 true s os)
  | exchange request k ih =>
    cases os with
    | nil => exact .exchanging k (.nil s)
    | cons o os => exact .exchange 0 o (.nil s) (ih 0 o s os)
  | release k ih => exact .release (ih s os)
  | sleep ms k ih => exact .sleep ms (Nat.le_refl ms) (.nil s) (ih ms (Nat.le_refl ms) s os)

/-- What calls lead to when each of them is replayed with outcomes of its own. -/
def Session.replay (s : Session) : List (Call × List Outcome) → History × Session
  | [] => ([], s)
  | (c, os) :: calls =>
    let r := c.program.replay (some c) s os
    let rest := r.2.1.replay calls
    (r.1 ++ rest.1, rest.2)

theorem Reaches.replay {allowed : Call → Prop} (start : Session)
    (calls : List (Call × List Outcome)) (hc : ∀ c ∈ calls, allowed c.1) :
    Reaches allowed start (start.replay calls).1 (start.replay calls).2 := by
  suffices ∀ {h : History} {s : Session}, Reaches allowed start h s →
      Reaches allowed start (h ++ (s.replay calls).1) (s.replay calls).2 from this .refl
  intro h s hr
  induction calls generalizing h s with
  | nil => simpa [Session.replay] using hr
  | cons c calls ih =>
    have h₁ := hr.call c.1 (hc c (by simp)) (Prog.runs_replay (some c.1) c.1.program s c.2)
    have h₂ := ih (fun c' hc' => hc c' (by simp [hc'])) h₁
    simpa [Session.replay] using h₂

/-- A class with code on two lines, the first of which starts at `pc`. -/
def Registry.twoLines (pc : UInt16) : Registry where
  root := none
  classes := [{
    name := "A"
    source := "A.java"
    file := {
      minorVersion := 0, majorVersion := 0, pool := ⟨#[]⟩
      flags := 0, thisClass := 0, superClass := 0, interfaceCount := 0
      methods := [⟨0, "m", "()V", some ⟨0, 0, [], some [⟨pc, 5⟩, ⟨pc + 4, 6⟩]⟩⟩] } }]

end RemoteDebug
