import RemoteDebug.Proofs.Unconnected

/-!
# Frames of a running device

Frames are kept so that a halted device need not be asked for them again. The session keeps every
frame it has read, though, whether the device stands still or not. It has frames of a running device
at hand exactly if it has kept one when the device was running, and nothing has made it drop its
frames since (`frames_kept_running_iff`). Then the calls for the frame that executes are served from
them, and in every other case they ask a running device.
-/

namespace RemoteDebug

/-! ## Frames kept while the device runs -/

/-- The session has frames at hand, and the device runs. -/
def Session.KeptRunning (s : Session) : Prop := s.frames ≠ none ∧ s.status.stopped = false

/-- Frames are kept while the device runs. -/
def Moment.KeepsRunning (m : Moment) : Prop :=
  m.session.status.stopped = false ∧ ∃ frames, m.what = .acted (.cached frames)

/-- The session drops the frames it has at hand. -/
def Moment.Drops (m : Moment) : Prop :=
  match m.what with
  | .acted .connected | .acted .resuming | .acted .stepping => True
  | .acted .disconnected => m.session.link ≠ .absent
  | .acted (.reading status) =>
    m.session.status.stopped ≠ status.stopped ∨ m.session.status.hit ≠ status.hit
  | _ => False

/-- A moment that leaves status and frames alone leaves it at that. -/
theorem Moment.keptRunning_of_eq {m : Moment} (hs : m.after.status = m.session.status)
    (hf : m.after.frames = m.session.frames) (hk : ¬m.KeepsRunning) (hd : ¬m.Drops) :
    m.after.KeptRunning ↔ m.KeepsRunning ∨ m.session.KeptRunning ∧ ¬m.Drops := by
  simp [Session.KeptRunning, hs, hf, hk, hd]

/-- Frames of a running device come by nothing but `KeepsRunning`, and go by nothing but `Drops`. -/
theorem Moment.keptRunning_after {m : Moment} (hm : m.Timely) :
    m.after.KeptRunning ↔ m.KeepsRunning ∨ m.session.KeptRunning ∧ ¬m.Drops := by
  obtain ⟨c, s, what⟩ := m
  cases what with
  | sent request => exact keptRunning_of_eq rfl rfl (by simp [KeepsRunning]) id
  | ended request o => exact keptRunning_of_eq rfl rfl (by simp [KeepsRunning]) id
  | acted a =>
    cases a with
    | connected =>
      simp [after, Session.apply, Session.clean, Session.KeptRunning, KeepsRunning, Drops]
    | disconnected =>
      by_cases hl : s.link = .absent <;>
        simp [after, Session.apply, Session.clean, Session.KeptRunning, KeepsRunning, Drops, hl]
    | lost cause =>
      refine keptRunning_of_eq ?_ ?_ (by simp [KeepsRunning]) id
      · exact s.status_apply_lost cause
      · exact s.frames_apply_lost cause
    | resuming => simp [after, Session.apply, Session.KeptRunning, KeepsRunning, Drops]
    | resumed =>
      -- The stop flag goes here, and the frames went when the request began.
      have hf : s.frames = none := hm
      simp [after, Session.apply, Session.KeptRunning, KeepsRunning, hf]
    | stepping => simp [after, Session.apply, Session.KeptRunning, KeepsRunning, Drops]
    | reading status =>
      have hstale : (Status.Change.between s.status status).framesStale = true ↔
          Drops ⟨c, s, .acted (.reading status)⟩ := by
        simp [Status.Change.between, Drops]
      by_cases hd : Drops ⟨c, s, .acted (.reading status)⟩
      · simp [after, Session.apply, Session.KeptRunning, KeepsRunning, hstale.mpr hd, hd]
      · have hsame : s.status.stopped = status.stopped ∧ s.status.hit = status.hit := by
          simpa [Drops] using hd
        simp [after, Session.apply, Session.KeptRunning, KeepsRunning, hstale, hd, hsame]
    | cached frames =>
      simp [after, Session.apply, Session.KeptRunning, KeepsRunning, Drops]
    | _ => exact keptRunning_of_eq rfl rfl (by simp [KeepsRunning]) id

/-! ## Requests for frames -/

namespace Op

variable {α β : Type} {c : Option Call} {request : Bytes} {s : Session}

/-- Every run of the operation that ends has sent the request, unless the connection was lost
before it could. -/
def Asks (op : Op α) (c : Option Call) (request : Bytes) (s : Session) : Prop :=
  ∀ l s' r, Runs c op.run s l s' (some r) →
    (∃ m ∈ l, m.call = c ∧ m.what = .sent request) ∨ r = .error .connectionClosed

theorem Asks.bind {op : Op α} (h : op.Asks c request s) (f : α → Op β) :
    (op >>= f).Asks c request s := by
  intro l s' r hl
  rcases hl.of_op_bind with ⟨hnone, -⟩ | ⟨e, he, hop⟩ | ⟨a, s₁, l₁, l₂, rfl, hop, -⟩
  · cases hnone
  · cases he
    exact (h l s' _ hop).imp_right fun he => by cases he; rfl
  · rcases h l₁ s₁ _ hop with ⟨m, hm, hsent⟩ | he
    · exact Or.inl ⟨m, by simp [hm], hsent⟩
    · cases he

theorem asks_of_onward {op op' : Op α} (heq : op.run.onward s = op'.run.onward s)
    (h : op'.Asks c request s) : op.Asks c request s := by
  intro l s' r hl
  refine h l s' r ?_
  rwa [← runs_onward_iff, ← heq, runs_onward_iff]

theorem asks_exchange : (exchange request).Asks c request s := by
  intro l s' r hl
  rw [← runs_onward_iff, exchange, onward_session_bind, runs_onward_iff] at hl
  split at hl
  · cases hl with
    | exchange t o hb h => exact Or.inl ⟨_, List.mem_cons_self, rfl, rfl⟩
  · cases hl
    exact Or.inr rfl

theorem asks_releasing {op : Op α} (h : op.Asks c request s) :
    (releasing op).Asks c request s := by
  intro l s' r hl
  rcases Runs.of_bind hl with ⟨hnone, -⟩ | ⟨a, s₁, l₁, l₂, rfl, hop, hrel⟩
  · cases hnone
  · cases hrel with
    | release hdone =>
      cases hdone
      simpa using h l₁ s' r hop

theorem asks_send : (send request).Asks c request s := by
  intro l s' r hl
  rcases Runs.of_op_bind hl with ⟨hnone, -⟩ | ⟨e, he, hop⟩ | ⟨t, s₁, l₁, l₂, rfl, -, hrest⟩
  · cases hnone
  · cases hop with
    | acquire t admitted hb hend =>
      cases admitted <;> cases hend
      cases he
      exact Or.inr rfl
  · rcases (asks_releasing asks_exchange).bind _ l₂ s' r hrest with ⟨m, hm, hsent⟩ | he
    · exact Or.inl ⟨m, by simp [hm], hsent⟩
    · exact Or.inr he

theorem asks_requireLink_bind {f : Unit → Op β} (hs : s.isConnected = true)
    (h : (f ()).Asks c request s) : (requireLink >>= f).Asks c request s := by
  refine asks_of_onward ?_ h
  rw [onward_requireLink_bind, if_pos hs]

theorem asks_readFrame (hs : s.isConnected = true) (index : UInt32) :
    (readFrame index).Asks c (frameRequest index).encode s := by
  have hcommand : (command (frameRequest index)).Asks c (frameRequest index).encode s :=
    asks_send.bind _
  exact asks_requireLink_bind hs (hcommand.bind _)

/-- Without frames at hand, the device is asked. -/
theorem asks_frames_of_none (hs : s.isConnected = true) (hf : s.frames = none) :
    (stackFrame 0).Asks c (frameRequest 0).encode s ∧
      stackFrames.Asks c (frameRequest 0).encode s := by
  have honward := onward_frames_of_none hf
  have hread : (readFrame 0).Asks c (frameRequest 0).encode s := asks_readFrame hs 0
  exact ⟨asks_of_onward honward.1 (hread.bind _), asks_of_onward honward.2 (hread.bind _)⟩

end Op

/-! ## The law -/

/-- Wherever calls lead : the session has frames of a running device at hand exactly if it has kept
some while the device was running, and has not dropped them since. Then the calls for the frame that
executes are served from them at once. In every other case, on a connection to a running device,
they ask for it. -/
theorem frames_kept_running_iff (config : Config) (valid : config.Valid) {h : History} {s : Session}
    (hr : Reaches (fun _ => True) (Session.new config valid) h s) :
    (s.frames ≠ none ∧ s.status.stopped = false ↔ Since Moment.KeepsRunning Moment.Drops h) ∧
    (s.isConnected = true → s.status.stopped = false →
      (Since Moment.KeepsRunning Moment.Drops h → ∃ frame,
        (Op.stackFrame 0).AtOnce s (.ok frame) ∧ Op.stackFrames.AtOnce s (.ok [frame])) ∧
      (¬Since Moment.KeepsRunning Moment.Drops h →
        (Op.stackFrame 0).Asks (some (.stackFrame 0)) (Op.frameRequest 0).encode s ∧
        Op.stackFrames.Asks (some .stackFrames) (Op.frameRequest 0).encode s)) := by
  have hkept : s.KeptRunning ↔ Since Moment.KeepsRunning Moment.Drops h := by
    rw [hr.follows.since_iff fun m hm => Moment.keptRunning_after (hr.timely m hm)]
    simp [Session.KeptRunning, Session.new]
  refine ⟨hkept, fun hs hrunning => ⟨fun hsince => ?_, fun hsince => ?_⟩⟩
  · obtain ⟨frames, hf⟩ := Option.ne_none_iff_exists'.mp (hkept.mpr hsince).1
    obtain ⟨-, frame, rfl, -⟩ := hr.keptFresh frames hf
    exact ⟨frame, Op.atOnce_frames_of_some hf⟩
  · have hf : s.frames = none := by
      cases hf : s.frames with
      | none => rfl
      | some frames => exact absurd (hkept.mp ⟨by simp [hf], hrunning⟩) hsince
    exact ⟨(Op.asks_frames_of_none hs hf).1, (Op.asks_frames_of_none hs hf).2⟩

/-- A session that has let the device run, and has asked it for a frame then. -/
def World.glimpsed : World :=
  let w := World.new (Session.new {} Config.valid_default) .reachable Device.inTwoLines
  w.calling [.load (.twoLines 0), .connect, .resume, .stackFrames]

theorem World.reached_glimpsed : World.glimpsed.Reached := (Reached.new _ _ _ _).calling _

/-- The frame of a running device is kept, and is served the next time. -/
theorem frames_kept_running_iff_glimpsed :
    let s := World.glimpsed.session
    s.isConnected = true ∧ s.status.stopped = false ∧ s.frames ≠ none ∧
      ∃ h, Since Moment.KeepsRunning Moment.Drops h ∧ ∃ frame,
        (Op.stackFrame 0).AtOnce s (.ok frame) ∧ Op.stackFrames.AtOnce s (.ok [frame]) := by
  intro s
  obtain ⟨config, valid, h, hr, -⟩ := World.reached_glimpsed.explained
  have hs : s.isConnected = true := by decide +kernel
  have hrunning : s.status.stopped = false := by decide +kernel
  have hf : s.frames ≠ none := by decide +kernel
  have hlaw := frames_kept_running_iff config valid hr
  have hsince := hlaw.1.mp ⟨hf, hrunning⟩
  exact ⟨hs, hrunning, hf, h, hsince, (hlaw.2 hs hrunning).1 hsince⟩

/-- A call for the frame that executes is served without asking the device, which runs. -/
theorem frame_served_while_running :
    let frame : StackFrame := ⟨0, 0, "A", "m", "()V", "A.java", 5⟩
    let w := World.glimpsed
    w.Reached ∧ w.session.deviceState = .running ∧ w.session.frames = some [frame] ∧
      (w.run (Op.stackFrame 0).run).1.toOption = some frame ∧
      (w.run (Op.stackFrame 0).run).2.requests = w.requests := by
  refine ⟨World.reached_glimpsed, ?_, ?_, ?_, ?_⟩ <;> decide +kernel

end RemoteDebug
