import RemoteDebug.Proofs.Histories
import RemoteDebug.Proofs.Simulated

/-!
# Without a connection

Operations look at the session before they do anything else. `Prog.onward` is what is left of a
program after these looks. If that is a result, the operation ends with it at once : it sends
nothing, it waits for nothing, and the session stays as it is (`Op.AtOnce`).

An operation that talks to the device asks for the connection first, and ends at once when there is
none. The calls for the frame that executes look at the frames of the session before that, and these
outlast the connection. So everything is refused without a connection, but for a frame that was read
before the device was lost (`refused_unless_kept`).
-/

namespace RemoteDebug

/-! ## How programs begin -/

/-- What is left of a program after the looks at the session that it begins with. -/
def Prog.onward {α : Type} : Prog α → Session → Prog α
  | .look k, s => (k s).onward s
  | p, _ => p

theorem runs_onward_iff {α : Type} {c : Option Call} {p : Prog α} {s s' : Session} {l : History}
    {r : Option α} : Runs c (p.onward s) s l s' r ↔ Runs c p s l s' r := by
  induction p with
  | look k ih =>
    constructor
    · intro h
      exact .look ((ih s).mp h)
    · intro h
      cases h with
      | look h => exact (ih s).mpr h
  | _ => rfl

/-- A program that only looks before it ends has one run, and nothing happens in it. -/
theorem runs_iff_of_onward {α : Type} {c : Option Call} {p : Prog α} {s s' : Session} {l : History}
    {r : Option α} {a : α} (h : p.onward s = .done a) :
    Runs c p s l s' r ↔ l = [] ∧ s' = s ∧ r = some a := by
  rw [← runs_onward_iff, h]
  constructor
  · intro hr
    cases hr
    exact ⟨rfl, rfl, rfl⟩
  · rintro ⟨rfl, rfl, rfl⟩
    exact .done a s'

/-- A program that only looks before it ends leaves the world as it is. -/
theorem World.run_of_onward {α : Type} {w : World} {p : Prog α} {a : α}
    (h : p.onward w.session = .done a) : w.run p = (a, w) := by
  induction p with
  | done b =>
    cases h
    rfl
  | look k ih => exact ih w.session h
  | _ => cases h

theorem Prog.onward_bind_of_done {α β : Type} {p : Prog α} {s : Session} {a : α}
    (h : p.onward s = .done a) (f : α → Prog β) : (p.bind f).onward s = (f a).onward s := by
  induction p with
  | done b =>
    cases h
    rfl
  | look k ih => exact ih s h
  | _ => cases h

namespace Op

variable {α β : Type} {s : Session}

/-- The operation ends with `r` at once : this is its only run, and nothing happens in it. -/
def AtOnce (op : Op α) (s : Session) (r : Except Failure α) : Prop :=
  ∀ c l s' r', Runs c op.run s l s' r' ↔ l = [] ∧ s' = s ∧ r' = some r

theorem atOnce_of_onward {op : Op α} {r : Except Failure α} (h : op.run.onward s = .done r) :
    op.AtOnce s r :=
  fun _ _ _ _ => runs_iff_of_onward h

theorem AtOnce.unique {op : Op α} {r₁ r₂ : Except Failure α} (h₁ : op.AtOnce s r₁)
    (h₂ : op.AtOnce s r₂) : r₁ = r₂ := by
  have hrun := (h₁ none [] s (some r₁)).mpr ⟨rfl, rfl, rfl⟩
  exact Option.some.inj ((h₂ none [] s (some r₁)).mp hrun).2.2

theorem onward_session_bind (f : Session → Op β) :
    (session >>= f).run.onward s = (f s).run.onward s := rfl

theorem onward_requireLink_bind (f : Unit → Op β) : (requireLink >>= f).run.onward s =
    if s.isConnected then (f ()).run.onward s else .done (.error .notConnected) := by
  change ((if s.isConnected then pure () else throw .notConnected : Op Unit) >>= f).run.onward s = _
  split <;> rfl

/-- What asks for the connection first is refused without one. -/
theorem atOnce_requireLink_bind (hs : s.isConnected = false) (f : Unit → Op β) :
    (requireLink >>= f).AtOnce s (.error .notConnected) := by
  refine atOnce_of_onward ?_
  rw [onward_requireLink_bind, hs]
  rfl

/-! ## Frames -/

/-- Frames at hand are served as they are. -/
theorem atOnce_frames_of_some {frame : StackFrame} (hf : s.frames = some [frame]) :
    (stackFrame 0).AtOnce s (.ok frame) ∧ stackFrames.AtOnce s (.ok [frame]) := by
  constructor
  · refine atOnce_of_onward ?_
    rw [stackFrame, if_pos rfl, topFrame, onward_session_bind, hf]
    rfl
  · refine atOnce_of_onward ?_
    rw [stackFrames, onward_session_bind, hf]
    rfl

/-- Read the frame that executes, and keep it. -/
def fetchFrame (f : StackFrame → β) : Op β := do
  let frame ← readFrame 0
  act (.cached [frame])
  return f frame

/-- Without frames at hand, the one that executes is read. -/
theorem onward_frames_of_none (hf : s.frames = none) :
    (stackFrame 0).run.onward s = (fetchFrame id).run.onward s ∧
      stackFrames.run.onward s = (fetchFrame fun frame => [frame]).run.onward s := by
  constructor
  · rw [stackFrame, if_pos rfl, topFrame, onward_session_bind, hf]
    rfl
  · rw [stackFrames, onward_session_bind, hf]
    rfl

theorem onward_readFrame (hs : s.isConnected = false) (index : UInt32) :
    (readFrame index).run.onward s = .done (.error .notConnected) := by
  rw [readFrame, onward_requireLink_bind, hs]
  rfl

/-- Frames that are not at hand are refused without a connection. -/
theorem atOnce_frames_of_none (hs : s.isConnected = false) (hf : s.frames = none) :
    (stackFrame 0).AtOnce s (.error .notConnected) ∧
      stackFrames.AtOnce s (.error .notConnected) := by
  have hfetch {β : Type} (f : StackFrame → β) :
      (fetchFrame f).run.onward s = .done (.error .notConnected) :=
    Prog.onward_bind_of_done (onward_readFrame hs 0) _
  have honward := onward_frames_of_none hf
  exact ⟨atOnce_of_onward (honward.1.trans (hfetch _)),
    atOnce_of_onward (honward.2.trans (hfetch _))⟩

/-- Without a connection, the calls for the frame that executes are refused exactly if there are no
frames at hand. -/
theorem refused_frames_iff {h : History} (hk : KeptFresh h s) (hs : s.isConnected = false) :
    ((stackFrame 0).AtOnce s (.error .notConnected) ↔ s.frames = none) ∧
      (stackFrames.AtOnce s (.error .notConnected) ↔ s.frames = none) := by
  cases hf : s.frames with
  | none => simp [atOnce_frames_of_none hs hf]
  | some frames =>
    obtain ⟨-, frame, rfl, -⟩ := hk frames hf
    have hserved := atOnce_frames_of_some hf
    exact ⟨iff_of_false (fun hrefused => nomatch hrefused.unique hserved.1) nofun,
      iff_of_false (fun hrefused => nomatch hrefused.unique hserved.2) nofun⟩

end Op

/-! ## The law -/

theorem Reaches.keptFresh {config : Config} {valid : config.Valid} {h : History} {s : Session}
    (hr : Reaches (fun _ => True) (Session.new config valid) h s) : KeptFresh h s := by
  have h₀ : NoFrames [] (Session.new config valid) := rfl
  exact hr.keeps h₀.keptFresh KeptFresh.stable fun c _ => KeptFresh.keeps_call c

/-- Wherever calls lead, and whatever has ended the connection : without one, every operation on the
device is refused at once, with nothing sent and the session as it was, except that the calls for
the frame that executes are served from the frames that the session keeps. It keeps any only if the
device was lost after they were read. -/
theorem refused_unless_kept (config : Config) (valid : config.Valid) {h : History} {s : Session}
    (hr : Reaches (fun _ => True) (Session.new config valid) h s) (hs : s.isConnected = false) :
    Op.resume.AtOnce s (.error .notConnected) ∧
    Op.stop.AtOnce s (.error .notConnected) ∧
    Op.stepIn.AtOnce s (.error .notConnected) ∧
    (∀ lines source, (Op.setBreakpoints lines source).AtOnce s (.error .notConnected)) ∧
    Op.removeAllBreakpoints.AtOnce s (.error .notConnected) ∧
    (∀ request, (Op.sendRaw request).AtOnce s (.error .notConnected)) ∧
    (∀ index, (Op.stackFrame index).AtOnce s (.error .notConnected) ↔
      index ≠ 0 ∨ s.frames = none) ∧
    (Op.stackFrames.AtOnce s (.error .notConnected) ↔ s.frames = none) ∧
    ∀ frames, s.frames = some frames → s.link = .lost ∧ ∃ frame, frames = [frame] ∧
      (Op.stackFrame 0).AtOnce s (.ok frame) ∧ Op.stackFrames.AtOnce s (.ok frames) := by
  have hrefused := Op.refused_frames_iff hr.keptFresh hs
  refine ⟨Op.atOnce_requireLink_bind hs _, Op.atOnce_requireLink_bind hs _,
    Op.atOnce_requireLink_bind hs _, fun _ _ => Op.atOnce_requireLink_bind hs _,
    Op.atOnce_requireLink_bind hs _, fun _ => Op.atOnce_requireLink_bind hs _,
    fun index => ?_, hrefused.2, fun frames hf => ?_⟩
  · by_cases hindex : index = 0
    · simpa [hindex] using hrefused.1
    · have honward : (Op.stackFrame index).run.onward s = .done (.error .notConnected) := by
        rw [Op.stackFrame, if_neg hindex]
        exact Op.onward_readFrame hs index
      simp [Op.atOnce_of_onward honward, hindex]
  · obtain ⟨hlink, frame, rfl, -⟩ := hr.keptFresh frames hf
    refine ⟨?_, frame, rfl, Op.atOnce_frames_of_some hf⟩
    cases hl : s.link with
    | absent => exact absurd hl hlink
    | up => simp [Session.isConnected, hl] at hs
    | lost => rfl

/-- A device that stands in the class of `Registry.twoLines`. -/
def Device.inTwoLines : Device := { className := "A", methodName := "m", descriptor := "()V" }

/-- A session that has read a frame, and has lost the device since. -/
def World.bereft : World :=
  let w := World.new (Session.new {} (by decide)) .reachable Device.inTwoLines
  (w.calling [.load (.twoLines 0), .connect, .stackFrames]).deviceEnds none

theorem World.reached_bereft : World.bereft.Reached := ((Reached.new _ _ _ _).calling _).ends _

/-- With the device lost, a request to run is refused, and the frame of before is served. -/
theorem refused_unless_kept_bereft :
    let s := World.bereft.session
    let frame : StackFrame := ⟨0, 0, "A", "m", "()V", "A.java", 5⟩
    s.isConnected = false ∧ Op.resume.AtOnce s (.error .notConnected) ∧ s.frames = some [frame] ∧
      ∃ frame', [frame] = [frame'] ∧ (Op.stackFrame 0).AtOnce s (.ok frame') ∧
        Op.stackFrames.AtOnce s (.ok [frame]) := by
  intro s frame
  obtain ⟨config, valid, h, hr, -⟩ := World.reached_bereft.explained
  have hs : s.isConnected = false := by decide +kernel
  have hf : s.frames = some [frame] := by decide +kernel
  have hlaw := refused_unless_kept config valid hr hs
  exact ⟨hs, hlaw.1, hf, (hlaw.2.2.2.2.2.2.2.2 _ hf).2⟩

/-- A frame is served although there is no connection. -/
theorem frame_served_without_connection :
    let frame : StackFrame := ⟨0, 0, "A", "m", "()V", "A.java", 5⟩
    World.bereft.Reached ∧ World.bereft.session.isConnected = false ∧
      (World.bereft.run (Op.stackFrame 0).run).1.toOption = some frame ∧
      (World.bereft.run Op.stackFrames.run).1.toOption = some [frame] ∧
      (World.bereft.run (Op.stackFrame 0).run).2.requests = World.bereft.requests := by
  refine ⟨World.reached_bereft, ?_, ?_, ?_, ?_⟩ <;> decide +kernel

end RemoteDebug
