import RemoteDebug.Proofs.Unconnected

/-!
# Breakpoint hits

A reading reports a breakpoint hit if its hit flag is set and that of the status before it is not.
What that status is depends on everything since the connection was made. A new connection takes the
device to stand on a breakpoint, readings from polls and from waits for a halt overwrite the status,
and a request to run or to step clears the flag before it is sent.

On one connection the flag is clear exactly if something has cleared it since the last reading that
had it set (`Moment.hit_after` is the step). So of the readings with the flag set, the first after
such a moment reports a hit, and no other (`breakpointHit_iff_cleared`).
-/

namespace RemoteDebug

/-- The call leaves the session the connection it has. -/
def Call.Stays (c : Call) : Prop := c ≠ .connect ∧ c ≠ .disconnect

namespace Moment

/-- What the moment reports. -/
def events (m : Moment) : List Event :=
  match m.what with
  | .acted a => m.session.events a
  | _ => []

/-- The device reports its status, with the hit flag set. -/
def ReportsHit (m : Moment) : Prop :=
  ∃ status, m.what = .acted (.reading status) ∧ status.hit = true

/-- A request to run has found the device halted. -/
def BeginsRun (m : Moment) : Prop :=
  m.call = some .resume ∧ m.session.isConnected = true ∧ m.session.status.stopped = true ∧
    m.what = .acted .resuming

/-- A step has found the device connected. -/
def BeginsStep (m : Moment) : Prop :=
  m.call = some .stepIn ∧ m.session.isConnected = true ∧ m.what = .acted .stepping

/-- The hit flag is cleared by a reading without it, or ahead of a request. -/
def ClearsHit (m : Moment) : Prop :=
  (∃ status, m.what = .acted (.reading status) ∧ status.hit = false) ∨ m.BeginsRun ∨ m.BeginsStep

/-! ## The hit flag -/

theorem not_clearsHit_of_reportsHit {m : Moment} (hm : m.ReportsHit) : ¬m.ClearsHit := by
  obtain ⟨status, hw, hs⟩ := hm
  simp [ClearsHit, BeginsRun, BeginsStep, hw, hs]

/-- Nothing else than readings and the beginnings of requests matters. -/
theorem hit_after_of_eq {m : Moment} (hs : m.after.status.hit = m.session.status.hit)
    (hother : (∀ status, m.what ≠ .acted (.reading status)) ∧ m.what ≠ .acted .resuming ∧
      m.what ≠ .acted .stepping) :
    m.after.status.hit = false ↔ m.ClearsHit ∨ m.session.status.hit = false ∧ ¬m.ReportsHit := by
  simp [ClearsHit, BeginsRun, BeginsStep, ReportsHit, hs, hother]

/-- On one connection, the hit flag is cleared by nothing but `ClearsHit`, and set by nothing but
`ReportsHit`. -/
theorem hit_after {m : Moment} (hm : m.Proper Call.Stays) (ht : m.Timely) :
    m.after.status.hit = false ↔ m.ClearsHit ∨ m.session.status.hit = false ∧ ¬m.ReportsHit := by
  obtain ⟨call, s, what⟩ := m
  cases what with
  | sent request => exact hit_after_of_eq rfl (by simp)
  | ended request o => exact hit_after_of_eq rfl (by simp)
  | acted a =>
    cases a with
    -- Both would need a call that is not made on one connection.
    | connected =>
      obtain ⟨c, -, hc, hmay⟩ := hm.called rfl (by simp) (by simp)
      exact absurd hmay hc.1
    | disconnected =>
      obtain ⟨c, -, hc, hmay⟩ := hm.called rfl (by simp) (by simp)
      exact absurd hmay (not_or.mpr hc)
    | resuming =>
      obtain ⟨c, hcall, -, hmay⟩ := hm.called rfl (by simp) (by simp)
      have hbegins : BeginsRun ⟨call, s, .acted .resuming⟩ := ⟨hmay ▸ hcall, ht.1, ht.2, rfl⟩
      simp [after, Session.apply, ClearsHit, hbegins]
    | stepping =>
      obtain ⟨c, hcall, -, hmay⟩ := hm.called rfl (by simp) (by simp)
      have hbegins : BeginsStep ⟨call, s, .acted .stepping⟩ := ⟨hmay ▸ hcall, ht, rfl⟩
      simp [after, Session.apply, ClearsHit, hbegins]
    | reading status => simp [after, Session.apply, ClearsHit, BeginsRun, BeginsStep, ReportsHit]
    | lost cause => exact hit_after_of_eq (by simp [after]) (by simp)
    | resumed => exact hit_after_of_eq (by simp [after, Session.apply]) (by simp)
    | _ => exact hit_after_of_eq rfl (by simp)

/-- Only a reading reports a hit, and only one that finds the flag clear and sets it. -/
theorem breakpointHit_mem_events {m : Moment} : .breakpointHit ∈ m.events ↔
    ∃ status, m.what = .acted (.reading status) ∧ m.session.status.hit = false ∧
      status.hit = true := by
  obtain ⟨call, s, what⟩ := m
  cases what with
  | acted a =>
    cases a with
    | lost cause =>
      by_cases hs : s.link = .up <;> simp [events, Session.events, hs]
    | disconnected =>
      by_cases hs : s.link = .up <;> simp [events, Session.events, hs]
    | reading status => simp [events, Session.events, Status.Change.between]
    | _ => simp [events, Session.events]
  | _ => simp [events]

theorem length_events_reading {m : Moment} {status : Status}
    (hw : m.what = .acted (.reading status)) : m.events.length ≤ 1 := by
  simp only [events, hw, Session.events]
  split <;> simp

end Moment

/-! ## How requests begin -/

namespace Op

/-- An attempt to connect lets go of the earlier connection, and makes a new one if it succeeds. -/
theorem runs_connect_cases {c : Option Call} {s s' : Session} {l : History}
    {r : Option (Except Failure Unit)} (h : Runs c connect.run s l s' r) :
    (r ≠ some (.ok ()) ∧ l = [⟨c, s, .acted .disconnected⟩] ∧ s' = s.apply .disconnected) ∨
      (r = some (.ok ()) ∧ s' = (s.apply .disconnected).apply .connected ∧
        l = [⟨c, s, .acted .disconnected⟩, ⟨c, s.apply .disconnected, .acted .connected⟩]) := by
  cases h with
  | act h =>
    cases h with
    | dialing => exact Or.inl ⟨nofun, rfl, rfl⟩
    | dial o h =>
      cases o with
      | error fault =>
        cases h
        exact Or.inl ⟨nofun, rfl, rfl⟩
      | ok _ =>
        cases h with
        | act h =>
          cases h
          exact Or.inr ⟨rfl, rfl, rfl⟩

/-- A successful attempt to connect ends with a new connection. -/
theorem runs_connect {c : Option Call} {s s' : Session} {l : History}
    (h : Runs c connect.run s l s' (some (.ok ()))) : ∃ s₁ : Session, s' = s₁.apply .connected := by
  rcases runs_connect_cases h with ⟨hr, -⟩ | ⟨-, hs, -⟩
  · exact absurd rfl hr
  · exact ⟨_, hs⟩

/-- What begins with an act does it at once. -/
theorem runs_of_onward_act {α : Type} {c : Option Call} {p k : Prog α} {a : Act} {s s' : Session}
    {l : History} {r : Option α} (heq : p.onward s = .act a k) (h : Runs c p s l s' r) :
    ∃ l', l = ⟨c, s, .acted a⟩ :: l' := by
  rw [← runs_onward_iff, heq] at h
  cases h with
  | act h => exact ⟨_, rfl⟩

theorem onward_resume {s : Session} (hs : s.isConnected = true) :
    resume.run.onward s = (if s.status.stopped then
      act .resuming >>= fun _ => command (.bare Wire.Opcode.run) >>= fun _ => act .resumed
      else pure () : Op Unit).run.onward s := by
  rw [resume, onward_requireLink_bind, if_pos hs, onward_session_bind]

/-- Without a halted device, a request to run does nothing. -/
theorem runs_resume_eq_nil {c : Option Call} {s s' : Session} {l : History}
    {r : Option (Except Failure Unit)} (h : Runs c resume.run s l s' r)
    (hs : ¬(s.isConnected = true ∧ s.status.stopped = true)) : l = [] := by
  by_cases hlink : s.isConnected = true
  · have honward := onward_resume hlink
    rw [if_neg (hs ⟨hlink, ·⟩)] at honward
    exact ((atOnce_of_onward honward _ _ _ _).mp h).1
  · exact ((atOnce_requireLink_bind (by simpa using hlink) _ _ _ _ _).mp h).1

/-- A request to run begins if the device is there and halted, and otherwise nothing happens. -/
theorem runs_resume_begins {s s' : Session} {l : History} {r : Option (Except Failure Unit)}
    (h : Runs (some .resume) resume.run s l s' r) :
    (∃ m l', l = m :: l' ∧ m.BeginsRun) ↔ s.isConnected = true ∧ s.status.stopped = true := by
  by_cases hs : s.isConnected = true ∧ s.status.stopped = true
  · have honward := onward_resume hs.1
    rw [if_pos hs.2] at honward
    obtain ⟨l', rfl⟩ := runs_of_onward_act honward h
    simp [Moment.BeginsRun, hs]
  · simp [runs_resume_eq_nil h hs, hs]

/-- A step begins if the device is there, and otherwise nothing happens. -/
theorem runs_singleStep_begins {s s' : Session} {l : History}
    {r : Option (Except Failure StackFrame)}
    (h : Runs (some .stepIn) singleStep.run s l s' r) :
    (∃ m l', l = m :: l' ∧ m.BeginsStep) ↔ s.isConnected = true := by
  have honward := onward_requireLink_bind (s := s) fun _ => act .stepping >>= fun _ =>
    command (.bare Wire.Opcode.singleStep) >>= fun _ => waitStop >>= fun _ => readFrame 0
  by_cases hs : s.isConnected = true
  · rw [if_pos hs] at honward
    obtain ⟨l', rfl⟩ := runs_of_onward_act honward h
    simp [Moment.BeginsStep, hs]
  · rw [if_neg hs] at honward
    have hnil : l = [] := ((atOnce_of_onward honward _ _ _ _).mp h).1
    simp [hnil, hs]

end Op

/-! ## The law -/

/-- The hit flag on one connection is clear if something has cleared it since the last reading that
had it set, or if it was clear from the start and no reading had it set. -/
theorem Follows.hit_eq_false_iff {start s : Session} {h : History} (hf : Follows start h s)
    (hh : ∀ m ∈ h, m.Proper Call.Stays ∧ m.Timely) : s.status.hit = false ↔
      Since Moment.ClearsHit Moment.ReportsHit h ∨
        start.status.hit = false ∧ ∀ m ∈ h, ¬m.ReportsHit :=
  hf.since_iff (F := fun s => s.status.hit = false) fun m hm =>
    Moment.hit_after (hh m hm).1 (hh m hm).2

/-- The hit flag on one connection is set if a reading has set it and nothing has cleared it since,
or if it was set from the start and nothing has cleared it. -/
theorem Follows.hit_eq_true_iff {start s : Session} {h : History} (hf : Follows start h s)
    (hh : ∀ m ∈ h, m.Proper Call.Stays ∧ m.Timely) : s.status.hit = true ↔
      Since Moment.ReportsHit Moment.ClearsHit h ∨
        start.status.hit = true ∧ ∀ m ∈ h, ¬m.ClearsHit := by
  refine hf.since_iff (F := fun s => s.status.hit = true) fun m hm => ?_
  have hstep := Moment.hit_after (hh m hm).1 (hh m hm).2
  have hexclusive : m.ReportsHit → ¬m.ClearsHit := Moment.not_clearsHit_of_reportsHit
  rw [← Bool.not_eq_false, ← Bool.not_eq_false, hstep]
  grind

/-- When a reading reports a hit, on one connection. -/
theorem Reaches.breakpointHit_mem_events {start s : Session} {h pre post : History} {m : Moment}
    {status : Status} (hr : Reaches Call.Stays start h s) (heq : h = pre ++ m :: post)
    (hw : m.what = .acted (.reading status)) : .breakpointHit ∈ m.events ↔ status.hit = true ∧
      (Since Moment.ClearsHit Moment.ReportsHit pre ∨
        start.status.hit = false ∧ ∀ x ∈ pre, ¬x.ReportsHit) := by
  have hpre : ∀ x ∈ pre, x.Proper Call.Stays ∧ x.Timely := by
    intro x hx
    have hmem : x ∈ h := by simp [heq, hx]
    exact ⟨hr.proper x hmem, hr.timely x hmem⟩
  rw [Moment.breakpointHit_mem_events, ← (hr.follows.split heq).hit_eq_false_iff hpre]
  simp [hw, and_comm]

/-- On one connection, whatever comes between : a reading reports at most one thing, and it reports
a breakpoint hit exactly if its hit flag is set and, since the last reading that had it set or else
since the connection was made, there was a reading without it, or a request to run or a step began.
Nothing but readings reports a hit, and only polls, requests to stop and steps take any. A request
to run begins if it finds the device connected and halted, and a step if it finds it connected. -/
theorem breakpointHit_iff_cleared {s₀ s₁ s : Session} {l h : History}
    (hc : Runs (some .connect) Op.connect.run s₀ l s₁ (some (.ok ())))
    (hr : Reaches Call.Stays s₁ h s) :
    (∀ pre m post status, h = pre ++ m :: post → m.what = .acted (.reading status) →
      m.events.length ≤ 1 ∧ (.breakpointHit ∈ m.events ↔
        status.hit = true ∧ Since Moment.ClearsHit Moment.ReportsHit pre)) ∧
    (∀ start h s, Reaches (fun _ => True) start h s → ∀ m ∈ h, .breakpointHit ∈ m.events →
      (∃ status, m.what = .acted (.reading status)) ∧
        (m.call = none ∨ m.call = some .stop ∨ m.call = some .stepIn)) ∧
    (∀ s l s' r, Runs (some .resume) Op.resume.run s l s' r →
      ((∃ m l', l = m :: l' ∧ m.BeginsRun) ↔ s.isConnected = true ∧ s.status.stopped = true)) ∧
    (∀ s l s' r, Runs (some .stepIn) Op.singleStep.run s l s' r →
      ((∃ m l', l = m :: l' ∧ m.BeginsStep) ↔ s.isConnected = true)) := by
  refine ⟨?_, ?_, fun _ _ _ _ => Op.runs_resume_begins, fun _ _ _ _ => Op.runs_singleStep_begins⟩
  · intro pre m post status heq hw
    -- A new connection takes the device to stand on a breakpoint.
    have hstart : s₁.status.hit = true := by
      obtain ⟨s₂, rfl⟩ := Op.runs_connect hc
      exact (by decide : Status.initial.hit = true)
    refine ⟨Moment.length_events_reading hw, ?_⟩
    rw [hr.breakpointHit_mem_events heq hw]
    simp [hstart]
  · intro start h s hr m hm hmem
    obtain ⟨status, hw, -⟩ := Moment.breakpointHit_mem_events.mp hmem
    refine ⟨⟨status, hw⟩, ?_⟩
    have hproper := hr.proper m hm
    rw [Moment.Proper] at hproper
    split at hproper
    · next c hcall =>
      rcases hproper.2 _ hw with rfl | rfl
      · exact Or.inr (Or.inl hcall)
      · exact Or.inr (Or.inr hcall)
    · next hcall => exact Or.inl hcall

/-- The device is asked to run, and a poll finds it on a breakpoint : that is reported. -/
theorem breakpointHit_iff_cleared_resumed :
    let s₁ := (Session.new {} (by decide)).apply .connected
    let r := s₁.replay [(.resume, [.reply [5, 0]])]
    let m : Moment := ⟨none, r.2, .acted (.reading ⟨3⟩)⟩
    ∃ pre, Reaches Call.Stays s₁ (pre ++ [m]) m.after ∧ .breakpointHit ∈ m.events ∧
      Since Moment.ClearsHit Moment.ReportsHit pre := by
  intro s₁ r m
  have hc : Runs (some .connect) Op.connect.run (Session.new {} (by decide)) _ s₁ (some (.ok ())) :=
    Prog.runs_replay (some .connect) Op.connect.run _ []
  have hr : Reaches Call.Stays s₁ r.1 r.2 := Reaches.replay _ _ (by simp [Call.Stays])
  have hstirs : Stirs r.2 [⟨none, r.2, .ended Op.statusRequest (.reply [0, 0, 3])⟩, m] m.after :=
    .reads (by decide +kernel) rfl
  have hpoll := hr.idle (.cons hstirs (.nil _))
  have hmem : .breakpointHit ∈ m.events := by decide +kernel
  rw [List.append_nil, List.append_cons] at hpoll
  have hlaw := (breakpointHit_iff_cleared hc hpoll).1 _ m [] ⟨3⟩ rfl rfl
  exact ⟨_, hpoll, hmem, (hlaw.2.mp hmem).2⟩

end RemoteDebug
