import RemoteDebug.Proofs.Footprint

/-!
# Frames are fresh

A session keeps the frame it has read until the device moves. It cannot see the device move, so
what counts is what it knows of : `Moment.Disturbs` are the requests to run and to step that the
calls for them send, the readings that differ from the known status in the stop or the hit flag,
and the making and the end of a connection.

A frame is `Fresh` when a request for it was answered and nothing has disturbed it since. Wherever
calls lead, what the session keeps is fresh, and so is what it serves : the answers to the calls
for frames, and the frame that stepping starts from (`frames_fresh`).
-/

namespace RemoteDebug

open Wire (Opcode)

/-! ## Fresh frames -/

/-- The frame at an index that the device reports in some bytes, with its place in the source. -/
def frameIn (registry : Registry) (index : UInt32) (bytes : Bytes) : Except Failure StackFrame := do
  let reply ← Op.replyTo Opcode.readStackTrace bytes
  let raw ← (Wire.Frame.decode reply.payload).mapError .protocol
  if raw.index ≠ index then
    throw (.protocol (.wrongFrame index raw.index))
  else
    let l ← (registry.lineAt raw.pc raw.className raw.methodName raw.descriptor).mapError
      .unresolved
    return ⟨raw.index, raw.pc, l.className, l.methodName, l.descriptor, l.source, l.line⟩

/-- The request makes the device move. -/
def movesDevice (request : Bytes) : Bool :=
  request == (Wire.Packet.bare Opcode.run).encode
    || request == (Wire.Packet.bare Opcode.singleStep).encode

/-- After this moment, the frames of before are no longer those of the device, as far as the session
can know. -/
def Moment.Disturbs (m : Moment) : Prop :=
  match m.what with
  | .acted .connected | .acted .disconnected => True
  | .acted (.reading status) =>
    m.session.status.stopped ≠ status.stopped ∨ m.session.status.hit ≠ status.hit
  | .sent request => (m.call = some .resume ∨ m.call = some .stepIn) ∧ movesDevice request
  | _ => False

/-- The calls that read the frame that executes. -/
def Call.ReadsTop (c : Call) : Prop := c = .stackFrame 0 ∨ c = .stackFrames ∨ c = .stepIn

/-- The device was asked for the frame that executes, the frame is its answer, and nothing has
disturbed it since. -/
def Fresh (h : History) (frame : StackFrame) : Prop :=
  ∃ pre m post c bytes, h = pre ++ m :: post ∧ m.call = some c ∧ c.ReadsTop ∧
    m.what = .ended (Op.frameRequest 0).encode (.reply bytes) ∧
    frameIn m.session.registry 0 bytes = .ok frame ∧ ∀ m' ∈ post, ¬m'.Disturbs

theorem Fresh.snoc {h : History} {frame : StackFrame} {m : Moment} (hf : Fresh h frame)
    (hm : ¬m.Disturbs) : Fresh (h ++ [m]) frame := by
  obtain ⟨pre, m₀, post, c, bytes, rfl, hc, hr, hw, hb, hpost⟩ := hf
  refine ⟨pre, m₀, post ++ [m], c, bytes, by simp, hc, hr, hw, hb, ?_⟩
  intro m' hm'
  rcases List.mem_append.mp hm' with h' | h'
  · exact hpost m' h'
  · rw [List.mem_singleton.mp h']
    exact hm

/-- What the session keeps is one fresh frame, of the connection it has. -/
def KeptFresh (h : History) (s : Session) : Prop :=
  ∀ frames, s.frames = some frames → s.link ≠ .absent ∧ ∃ frame, frames = [frame] ∧ Fresh h frame

/-- The session keeps no frames. -/
def NoFrames (_ : History) (s : Session) : Prop := s.frames = none

/-- The session has a connection to let go of. -/
def HasLink (_ : History) (s : Session) : Prop := s.link ≠ .absent

theorem NoFrames.keptFresh {h : History} {s : Session} (hs : NoFrames h s) : KeptFresh h s := by
  intro frames hf
  rw [hs] at hf
  cases hf

/-- What leaves frames and connection alone and disturbs nothing keeps frames fresh. -/
theorem KeptFresh.snoc {h : History} {s s' : Session} {m : Moment} (hk : KeptFresh h s)
    (hm : ¬m.Disturbs) (hf : s'.frames = s.frames) (hl : s.link ≠ .absent → s'.link ≠ .absent) :
    KeptFresh (h ++ [m]) s' := by
  intro frames hs
  obtain ⟨hlink, frame, rfl, hfresh⟩ := hk frames (hf ▸ hs)
  exact ⟨hl hlink, frame, rfl, hfresh.snoc hm⟩

/-! ## What the background does -/

theorem HasLink.stable : Stable HasLink := by
  refine Stable.of_session (fun _ hs => hs) fun cause hs => ?_
  simp only [Session.apply]
  split
  · simp
  · exact hs

theorem NoFrames.stable : Stable NoFrames := by
  refine Stable.of_session (fun status hs => ?_) fun cause hs => ?_
  · simp only [Session.apply, hs]
    split <;> rfl
  · simp only [Session.apply]
    split <;> exact hs

/-- A reading that differs in a flag that matters drops the frames. -/
theorem KeptFresh.reading {c : Option Call} {h : History} {s : Session} (hk : KeptFresh h s)
    (status : Status) :
    KeptFresh (h ++ [⟨c, s, .acted (.reading status)⟩]) (s.apply (.reading status)) := by
  by_cases hstale : (Status.Change.between s.status status).framesStale
  · refine NoFrames.keptFresh ?_
    simp [NoFrames, Session.apply, hstale]
  · have hsame : s.status.stopped = status.stopped ∧ s.status.hit = status.hit := by
      simpa [Status.Change.between] using hstale
    refine hk.snoc ?_ (by simp [Session.apply, hstale]) id
    simp [Moment.Disturbs, hsame]

theorem KeptFresh.stable : Stable KeptFresh := by
  refine Stable.of_stirs fun {h s l s'} hk hl => ?_
  cases hl with
  | asks => exact hk.snoc (by simp [Moment.Disturbs]) rfl id
  | misses => exact hk.snoc id rfl id
  | @reads bytes status =>
    have h₁ : KeptFresh (h ++ [⟨none, s, .ended Op.statusRequest (.reply bytes)⟩]) s :=
      hk.snoc id rfl id
    have h₂ := h₁.reading (c := none) status
    simpa using h₂
  | loses cause =>
    refine hk.snoc id ?_ ?_
    · simp only [Session.apply]
      split <;> rfl
    · intro hs
      exact HasLink.stable (h := []) hs (Idle.cons (.loses s cause) (.nil _))

/-! ## Reading frames -/

/-- The last thing that happened is that the device answered the call `c` with the frame at an
index. -/
def Answered (c : Option Call) (h : History) (index : UInt32) (frame : StackFrame) : Prop :=
  ∃ pre s bytes, h = pre ++ [⟨c, s, .ended (Op.frameRequest index).encode (.reply bytes)⟩] ∧
    frameIn s.registry index bytes = .ok frame

/-- A frame that was just read is fresh, and may be kept. -/
theorem Answered.cached {c : Call} {h : History} {s : Session} {frame : StackFrame}
    (ha : Answered (some c) h 0 frame) (hc : c.ReadsTop) (hs : s.link ≠ .absent) :
    KeptFresh (h ++ [⟨some c, s, .acted (.cached [frame])⟩]) (s.apply (.cached [frame])) ∧
      Fresh (h ++ [⟨some c, s, .acted (.cached [frame])⟩]) frame := by
  obtain ⟨pre, s₁, bytes, rfl, hb⟩ := ha
  have hfresh : Fresh (pre ++ [⟨some c, s₁, .ended (Op.frameRequest 0).encode (.reply bytes)⟩])
      frame := ⟨pre, _, [], c, bytes, rfl, rfl, hc, rfl, hb, by simp⟩
  refine ⟨?_, hfresh.snoc id⟩
  intro frames hf
  simp only [Session.apply, Option.some.injEq] at hf
  exact ⟨hs, frame, hf.symm, hfresh.snoc id⟩

theorem hasLink_of_isConnected {s : Session} (hs : s.isConnected = true) : s.link ≠ .absent := by
  have hup : s.link = .up := by simpa [Session.isConnected] using hs
  simp [hup]

namespace Op

variable {c : Option Call}

/-- Reading a frame asks for it once, and its value is the answer. -/
theorem keeps_readFrame {I P : Assertion} {index : UInt32} (hP : Stable P)
    (hI : ∀ {h s}, P h s → I h s)
    (hsent : ∀ {h s}, P h s → P (h ++ [⟨c, s, .sent (frameRequest index).encode⟩]) s)
    (hended : ∀ {h s o}, P h s → P (h ++ [⟨c, s, .ended (frameRequest index).encode o⟩]) s) :
    (readFrame index).Keeps c I P fun frame h s =>
      (P h s ∧ HasLink h s) ∧ Answered c h index frame := by
  refine keeps_bind (keeps_requireLink hI) fun _ => ?_
  -- From here to the end the session does not change, so its registry is that of the answer.
  refine keeps_bind (R := fun reply h s => (P h s ∧ HasLink h s) ∧ ∃ pre bytes,
      h = pre ++ [⟨c, s, .ended (frameRequest index).encode (.reply bytes)⟩] ∧
        replyTo Opcode.readStackTrace bytes = .ok reply) ?_ fun reply => ?_
  · have hstable := hP.and HasLink.stable
    refine (keeps_command hstable (hI ·.1) (fun hp => ⟨hsent hp.1, hp.2⟩) hstable (hI ·.1)
      (fun hp hr => ⟨⟨hended hp.1, hp.2⟩, _, _, rfl, hr⟩) fun hp _ => hI (hended hp.1)).mono ?_ id
    exact fun hp => ⟨hp.1, hasLink_of_isConnected hp.2⟩
  refine keeps_ofExcept_bind (hI ·.1.1) fun raw hraw => ?_
  split
  · exact keeps_throw (hI ·.1.1)
  · next hindex =>
    refine keeps_session_bind fun s₀ => keeps_ofExcept_bind (hI ·.1.1.1) fun l hl => ?_
    refine keeps_pure ?_
    rintro h s ⟨⟨hp, pre, bytes, rfl, hreply⟩, rfl⟩
    refine ⟨hp, pre, s, bytes, rfl, ?_⟩
    have hraw : (Wire.Frame.decode reply.payload).mapError Failure.protocol = .ok raw := by
      rw [hraw]
      rfl
    have hl : (s.registry.lineAt raw.pc raw.className raw.methodName raw.descriptor).mapError
        Failure.unresolved = .ok l := by
      rw [hl]
      rfl
    simp [frameIn, hreply, hraw, hindex, hl, bind, Except.bind, pure, Except.pure]

/-- The frames are left alone by a request for frames. -/
theorem keeps_readFrame_kept (index : UInt32) :
    (readFrame index).Keeps c KeptFresh KeptFresh fun frame h s =>
      (KeptFresh h s ∧ HasLink h s) ∧ Answered c h index frame := by
  refine keeps_readFrame KeptFresh.stable id (fun hk => ?_) fun hk => hk.snoc id rfl id
  have hmoves : movesDevice (frameRequest index).encode = false := by
    simp [movesDevice, frameRequest, Wire.Packet.encode, Wire.Packet.bare, Opcode.readStackTrace,
      Opcode.run, Opcode.singleStep]
  exact hk.snoc (by simp [Moment.Disturbs, hmoves]) rfl id

variable {call : Call}

/-- A frame that is read and kept is fresh. -/
theorem keeps_readFrame_cached {β : Type} (hc : call.ReadsTop) (f : StackFrame → β) :
    (do
      let frame ← readFrame 0
      act (.cached [frame])
      return f frame : Op β).Keeps (some call) KeptFresh KeptFresh fun b h s =>
        KeptFresh h s ∧ ∃ frame, b = f frame ∧ Fresh h frame := by
  refine keeps_bind (keeps_readFrame_kept 0) fun frame => ?_
  refine keeps_bind (R := fun _ h s => KeptFresh h s ∧ Fresh h frame) (keeps_act ?_) fun _ => ?_
  · exact fun ⟨hk, ha⟩ => ha.cached hc hk.2
  · exact keeps_pure fun ⟨hk, hf⟩ => ⟨hk, frame, rfl, hf⟩

theorem keeps_topFrame (hc : call.ReadsTop) :
    topFrame.Keeps (some call) KeptFresh KeptFresh fun frame h s =>
      KeptFresh h s ∧ Fresh h frame := by
  refine keeps_session_bind fun s₀ => ?_
  split
  · next frame frames hs =>
    refine keeps_pure ?_
    rintro h s ⟨hk, rfl⟩
    obtain ⟨-, frame', he, hfresh⟩ := hk _ hs
    rw [(List.cons.inj he).1]
    exact ⟨hk, hfresh⟩
  · refine (keeps_readFrame_cached hc id).mono (·.1) ?_
    rintro frame h s ⟨hk, _, rfl, hf⟩
    exact ⟨hk, hf⟩

theorem keeps_stackFrames (hc : call.ReadsTop) :
    stackFrames.Keeps (some call) KeptFresh KeptFresh fun frames h s =>
      KeptFresh h s ∧ ∃ frame, frames = [frame] ∧ Fresh h frame := by
  refine keeps_session_bind fun s₀ => ?_
  split
  · next frames hs =>
    refine keeps_pure ?_
    rintro h s ⟨hk, rfl⟩
    exact ⟨hk, (hk frames hs).2⟩
  · exact (keeps_readFrame_cached hc fun frame => [frame]).mono (·.1) id

theorem keeps_stackFrame (index : UInt32) :
    (stackFrame index).Keeps (some (.stackFrame index)) KeptFresh KeptFresh fun _ => KeptFresh := by
  unfold stackFrame
  split
  · next h => exact (keeps_topFrame (Or.inl (h ▸ rfl))).mono id (·.1)
  · exact (keeps_readFrame_kept index).mono id (·.1.1)

/-! ## Running and stepping -/

/-- Without frames nothing has to be fresh, so any command may be sent. -/
theorem keeps_command_noFrames (p : Wire.Packet) :
    (command p).Keeps c KeptFresh NoFrames fun _ => NoFrames :=
  keeps_command NoFrames.stable NoFrames.keptFresh (fun hs => hs) NoFrames.stable
    NoFrames.keptFresh (fun hs _ => hs) fun hs _ => NoFrames.keptFresh hs

theorem keeps_resume : resume.Keeps c KeptFresh KeptFresh fun _ => KeptFresh := by
  refine keeps_bind (keeps_requireLink id) fun _ => keeps_session_bind fun s₀ => ?_
  split
  · refine keeps_bind (R := fun _ => NoFrames) (keeps_act fun _ => rfl) fun _ => ?_
    refine keeps_bind (keeps_command_noFrames _) fun _ => ?_
    exact keeps_act fun {h s} hs => NoFrames.keptFresh (s := s.apply .resumed) hs
  · exact keeps_pure (·.1.1)

theorem keeps_waitStop_noFrames : waitStop.Keeps c KeptFresh NoFrames fun _ => NoFrames := by
  have hbuilt : waitStop.Built (fun a => ∃ status, a = .reading status) fun _ => True :=
    built_waitStop (fun status => ⟨status, rfl⟩) trivial
  refine (hbuilt.only.keeps NoFrames.stable ?_ (fun _ hs => hs) fun _ hs => hs).weaken
    NoFrames.keptFresh
  rintro a h s ⟨status, rfl⟩ hs
  have hs : s.frames = none := hs
  simp [NoFrames, Session.apply, hs]

/-- The frame after a step is the answer to a request made after it. -/
theorem keeps_singleStep : singleStep.Keeps c KeptFresh KeptFresh fun frame h s =>
    (NoFrames h s ∧ HasLink h s) ∧ Answered c h 0 frame := by
  refine keeps_bind (keeps_requireLink id) fun _ => ?_
  refine keeps_bind (R := fun _ => NoFrames) (keeps_act fun _ => rfl) fun _ => ?_
  refine keeps_bind (keeps_command_noFrames _) fun _ => ?_
  refine keeps_bind keeps_waitStop_noFrames fun _ => ?_
  exact keeps_readFrame NoFrames.stable NoFrames.keptFresh (fun hs => hs) fun hs => hs

theorem keeps_stepFrom (hc : call.ReadsTop) (start : StackFrame) (limit : UInt32) (n : Nat) :
    (stepFrom start limit n).Keeps (some call) KeptFresh KeptFresh fun _ => KeptFresh := by
  induction n with
  | zero => exact keeps_throw id
  | succ n ih =>
    refine keeps_bind keeps_singleStep fun frame => ?_
    split
    · refine keeps_bind (R := fun _ => KeptFresh) (keeps_act ?_) fun _ => keeps_pure id
      exact fun ⟨hs, ha⟩ => (ha.cached hc hs.2).1
    · exact ih.mono (fun ⟨hs, _⟩ => hs.1.keptFresh) id

theorem keeps_stepIn : stepIn.Keeps (some .stepIn) KeptFresh KeptFresh fun _ => KeptFresh := by
  have hc : Call.stepIn.ReadsTop := Or.inr (Or.inr rfl)
  refine keeps_bind (keeps_requireLink id) fun _ => keeps_session_bind fun s₀ => ?_
  split
  · refine keeps_bind ((keeps_topFrame hc).mono (·.1.1) id) fun start => ?_
    exact (keeps_stepFrom hc start _ _).mono (·.1) id
  · exact keeps_throw (·.1.1)

end Op

/-! ## The law -/

/-- The act keeps frames fresh. -/
def Act.Harmless (a : Act) : Prop := ∀ {c : Option Call} {h : History} {s : Session},
  KeptFresh h s → KeptFresh (h ++ [⟨c, s, .acted a⟩]) (s.apply a)

theorem Act.harmless_reading (status : Status) : (Act.reading status).Harmless :=
  fun hk => hk.reading status

theorem Act.harmless_connected : Act.connected.Harmless := fun _ => NoFrames.keptFresh rfl

theorem Act.harmless_disconnected : Act.disconnected.Harmless := by
  intro c h s hk
  by_cases hs : s.link = .absent
  · intro frames hf
    simp only [Session.apply, hs, if_true] at hf
    exact absurd hs (hk frames hf).1
  · refine NoFrames.keptFresh ?_
    simp [NoFrames, Session.apply, hs, Session.clean]

/-- Only the calls that let the device move send requests that disturb. -/
theorem KeptFresh.keeps_of_built {α : Type} {c : Call} {op : Op α}
    (h : op.Built Act.Harmless fun _ => True) (hc₁ : c ≠ .resume) (hc₂ : c ≠ .stepIn) :
    Meets (some c) KeptFresh KeptFresh op.program fun _ => KeptFresh := by
  refine h.only.program.meets KeptFresh.stable (fun ha hk => ha hk) (fun _ hk => ?_)
    fun _ hk => hk.snoc id rfl id
  exact hk.snoc (by simp [Moment.Disturbs, hc₁, hc₂]) rfl id

theorem KeptFresh.keeps_call (c : Call) :
    Meets (some c) KeptFresh KeptFresh c.program fun _ => KeptFresh := by
  have hedit (edit : Edit) : (Act.edited edit).Harmless := fun hk => hk.snoc id rfl id
  cases c with
  | connect =>
    exact keeps_of_built (Op.built_connect Act.harmless_disconnected Act.harmless_connected)
      nofun nofun
  | disconnect => exact keeps_of_built (Op.built_disconnect Act.harmless_disconnected) nofun nofun
  | sendRaw request => exact keeps_of_built (Op.built_sendRaw trivial) nofun nofun
  | load registry =>
    exact keeps_of_built (Op.Built.act fun hk => hk.snoc id rfl id) nofun nofun
  | setBreakpoints lines source =>
    exact keeps_of_built (Op.built_setBreakpoints lines source hedit fun _ => trivial) nofun nofun
  | removeAllBreakpoints =>
    exact keeps_of_built (Op.built_removeAllBreakpoints (fun hk => hk.snoc id rfl id) trivial)
      nofun nofun
  | resume => exact Op.keeps_resume.program
  | stop => exact keeps_of_built (Op.built_stop Act.harmless_reading trivial trivial) nofun nofun
  | stepIn => exact Op.keeps_stepIn.program
  | stackFrame index => exact (Op.keeps_stackFrame index).program
  | stackFrames =>
    exact ((Op.keeps_stackFrames (Or.inr (Or.inl rfl))).mono id (·.1)).program

theorem Op.runs_session {c : Option Call} {s s' s₀ : Session} {l : History}
    (h : Runs c session.run s l s' (some (.ok s₀))) : s₀ = s ∧ s' = s ∧ l = [] := by
  cases h with
  | look h =>
    cases h
    exact ⟨rfl, rfl, rfl⟩

theorem Op.runs_requireLink {c : Option Call} {s s' : Session} {l : History}
    (h : Runs c requireLink.run s l s' (some (.ok ()))) : s' = s ∧ l = [] := by
  rcases h.of_op_bind with ⟨h₁, -⟩ | ⟨e, h₁, -⟩ | ⟨s₀, s₁, l₁, l₂, rfl, h₁, h₂⟩
  · cases h₁
  · cases h₁
  · obtain ⟨rfl, rfl, rfl⟩ := runs_session h₁
    split at h₂
    · cases h₂
      exact ⟨rfl, rfl⟩
    · cases h₂

/-- Stepping does not step, or it reads the frame that executes and goes on from there. -/
theorem Op.runs_stepIn {s s' : Session} {l : History} {r : Option (Except Failure StackFrame)}
    (h : Runs (some .stepIn) stepIn.run s l s' r) :
    SentWithin (· ≠ (Wire.Packet.bare Opcode.singleStep).encode) l ∨
      ∃ start s₁ l₁ l₂, l = l₁ ++ l₂ ∧
        Runs (some .stepIn) topFrame.run s l₁ s₁ (some (.ok start)) ∧
        Runs (some .stepIn) (stepFrom start s.config.maxSteps s.config.maxSteps.toNat).run
          s₁ l₂ s' r := by
  let A : Act → Prop := fun _ => True
  let R : Bytes → Prop := (· ≠ (Wire.Packet.bare Opcode.singleStep).encode)
  have hpoll : R statusRequest := by decide
  have hlink : Op.Built A R requireLink := built_requireLink
  have hlook : Op.Built A R session := .session
  have htop : Op.Built A R topFrame := built_topFrame (fun _ => trivial) (by decide)
  rcases h.of_op_bind with ⟨-, h₁⟩ | ⟨e, -, h₁⟩ | ⟨_, s₁, l₁, l₂, rfl, h₁, h₂⟩
  · exact Or.inl (hlink.sentWithin hpoll h₁)
  · exact Or.inl (hlink.sentWithin hpoll h₁)
  obtain ⟨rfl, rfl⟩ := runs_requireLink h₁
  rcases h₂.of_op_bind with ⟨-, h₁⟩ | ⟨e, -, h₁⟩ | ⟨s₀, s₂, l₁, l₂, rfl, h₁, h₃⟩
  · exact Or.inl (hlook.sentWithin hpoll h₁)
  · exact Or.inl (hlook.sentWithin hpoll h₁)
  obtain ⟨rfl, rfl, rfl⟩ := runs_session h₁
  split at h₃
  · rcases h₃.of_op_bind with ⟨-, h₁⟩ | ⟨e, -, h₁⟩ | ⟨start, s₃, l₁, l₂, rfl, h₁, h₄⟩
    · exact Or.inl (htop.sentWithin hpoll h₁)
    · exact Or.inl (htop.sentWithin hpoll h₁)
    · exact Or.inr ⟨start, s₃, l₁, l₂, rfl, h₁, h₄⟩
  · have hthrow : Op.Built A R (throw .notStopped : Op StackFrame) := .throw _
    exact Or.inl (hthrow.sentWithin hpoll h₃)

/-- Wherever calls lead, whatever the device answers and whenever polls come between : the session
keeps one fresh frame of its connection or none, a call for the frame that executes gets a fresh
one, and stepping goes on from a fresh one, if it steps at all. -/
theorem frames_fresh (config : Config) (valid : config.Valid) {h : History} {s : Session}
    (hr : Reaches (fun _ => True) (Session.new config valid) h s) :
    (∀ frames, s.frames = some frames →
      s.link ≠ .absent ∧ ∃ frame, frames = [frame] ∧ Fresh h frame) ∧
    (∀ l s' frame, Runs (some (.stackFrame 0)) (Op.stackFrame 0).run s l s' (some (.ok frame)) →
      Fresh (h ++ l) frame) ∧
    (∀ l s' frames, Runs (some .stackFrames) Op.stackFrames.run s l s' (some (.ok frames)) →
      ∃ frame, frames = [frame] ∧ Fresh (h ++ l) frame) ∧
    (∀ l s' r, Runs (some .stepIn) Op.stepIn.run s l s' r →
      (∀ m ∈ l, m.what ≠ .sent (Wire.Packet.bare Opcode.singleStep).encode) ∨
      ∃ start s₁ l₁ l₂, l = l₁ ++ l₂ ∧ Fresh (h ++ l₁) start ∧
        Runs (some .stepIn) (Op.stepFrom start s.config.maxSteps s.config.maxSteps.toNat).run
          s₁ l₂ s' r) := by
  have h₀ : NoFrames [] (Session.new config valid) := rfl
  have hk : KeptFresh h s :=
    hr.keeps h₀.keptFresh KeptFresh.stable fun c _ => KeptFresh.keeps_call c
  refine ⟨hk, ?_, ?_, ?_⟩
  · intro l s' frame hl
    exact (Op.keeps_topFrame (Or.inl rfl) hk hl).2
  · intro l s' frames hl
    exact (Op.keeps_stackFrames (Or.inr (Or.inl rfl)) hk hl).2
  · intro l s' r hl
    rcases Op.runs_stepIn hl with hsent | ⟨start, s₁, l₁, l₂, rfl, htop, hstep⟩
    · exact Or.inl fun m hm hw => hsent m hm _ hw rfl
    · have hfresh := (Op.keeps_topFrame (Or.inr (Or.inr rfl)) hk htop).2
      exact Or.inr ⟨start, s₁, l₁, l₂, rfl, hfresh, hstep⟩

/-- A frame that was read on a new connection is kept, and is fresh. -/
theorem frames_fresh_after_read :
    let frame : Wire.Frame := ⟨0, 4, "A", "m", "()V"⟩
    let s₀ := Session.new {} (by decide)
    let r := s₀.replay [(.connect, []), (.load (.twoLines 0), []),
      (.stackFrames, [.reply (1 :: 0 :: frame.encode true 0 0 0)])]
    Reaches (fun _ => True) s₀ r.1 r.2 ∧
      r.2.frames = some [⟨0, 4, "A", "m", "()V", "A.java", 6⟩] ∧
      ∃ frame, [⟨0, 4, "A", "m", "()V", "A.java", 6⟩] = [frame] ∧ Fresh r.1 frame := by
  intro frame s₀ r
  have hr : Reaches (fun _ => True) s₀ r.1 r.2 := Reaches.replay _ _ fun _ _ => trivial
  have hf : r.2.frames = some [⟨0, 4, "A", "m", "()V", "A.java", 6⟩] := by decide +kernel
  exact ⟨hr, hf, ((frames_fresh _ _ hr).1 _ hf).2⟩

end RemoteDebug
