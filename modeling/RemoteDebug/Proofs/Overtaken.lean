import RemoteDebug.Proofs.Hits

/-!
# Requests to run and polls

A request to run clears the hit flag before it waits for the permit, and the stop flag after the
device has acknowledged it. A poll that is under way when the call is made ends in between, and its
reading is that of the halted device. The stop flag is cleared once more, and the hit flag is not.

So a request to run that succeeds leaves the stop flag clear in any case. It leaves the hit flag set
exactly if it was overtaken : a reading that came while it waited had the flag set, and none after
it was without (`resumed_unless_overtaken`). Then the next breakpoint that the device reaches is
reported only if something has cleared the flag in the meantime.
-/

namespace RemoteDebug

open Wire (Opcode)

/-! ## Requests to run -/

/-- The device was asked to run. -/
def AskedToRun (h : History) : Prop :=
  ∃ m ∈ h, m.call = some .resume ∧ m.what = .sent (Wire.Packet.bare Opcode.run).encode

instance (h : History) : Decidable (AskedToRun h) := inferInstanceAs (Decidable (∃ m ∈ h, _ ∧ _))

/-- The device has just acknowledged the request to run. -/
def Acknowledged (h : History) (s : Session) : Prop :=
  ∃ before bytes, AskedToRun before ∧ (Outcome.reply bytes).accepted Opcode.run = true ∧
    h = before ++
      [⟨some .resume, s, .ended (Wire.Packet.bare Opcode.run).encode (.reply bytes)⟩]

theorem AskedToRun.stable : Stable fun h _ => AskedToRun h := by
  rintro h s b s' ⟨m, hm, hsent⟩ -
  exact ⟨m, by simp [hm], hsent⟩

/-- When a request to run a halted device succeeds, the device has acknowledged it, and nothing has
happened since but that the session has taken note. -/
theorem Op.keeps_resume_acknowledged : resume.Keeps (some .resume) (fun _ _ => True)
    (fun _ s => s.status.stopped = true) fun _ h s' => ∃ h₁ s₁, Acknowledged h₁ s₁ ∧
      h = h₁ ++ [⟨some .resume, s₁, .acted .resumed⟩] ∧ s' = s₁.apply .resumed := by
  refine keeps_bind (keeps_requireLink fun _ => trivial) fun _ => keeps_session_bind fun s₀ => ?_
  split
  · refine keeps_bind (R := fun _ _ _ => True) (keeps_act fun _ => trivial) fun _ => ?_
    refine keeps_bind (R := fun _ => Acknowledged) ?_ fun _ => keeps_act fun hack =>
      ⟨_, _, hack, rfl, rfl⟩
    refine keeps_command (fun _ _ _ _ _ _ => trivial) (fun _ => trivial) (fun {h s} _ => ?_)
      AskedToRun.stable (fun _ => trivial) ?_ fun _ _ => trivial
    · exact ⟨⟨some .resume, s, .sent _⟩, by simp, rfl, rfl⟩
    · intro h s bytes reply hsent hreply
      have haccepted : (Outcome.reply bytes).accepted Opcode.run = true := by
        rw [Outcome.accepted]
        exact congrArg Except.isOk hreply
      exact ⟨h, bytes, hsent, haccepted, rfl⟩
  · next hs =>
    refine keeps_pure ?_
    rintro h s ⟨⟨hstopped, -⟩, rfl⟩
    exact absurd hstopped hs

theorem Reaches.of_resume {s s' : Session} {l : History} {r : Except Failure Unit}
    (hl : Runs (some .resume) Op.resume.run s l s' (some r)) : Reaches Call.Stays s l s' := by
  have hdone : Runs (some .resume) (.done ()) s' [] s' (some ()) := .done () s'
  have hrun : Runs (some .resume) Call.resume.program s (l ++ []) s' (some ()) :=
    hl.bind (f := fun _ => .done ()) hdone
  rw [List.append_nil] at hrun
  exact Reaches.refl.call .resume ⟨nofun, nofun⟩ hrun

/-! ## The law -/

/-- A request to run that has been sent and succeeds has just been acknowledged, and no reading has
come since. The stop flag is clear. The hit flag is set exactly if the request was overtaken by a
reading that had it set, and none without it came after that. The first reading after it with the
hit flag set reports a hit, unless the request was overtaken and nothing has cleared the flag
since. -/
theorem resumed_unless_overtaken {s s' : Session} {l : History}
    (hl : Runs (some .resume) Op.resume.run s l s' (some (.ok ()))) (hsent : AskedToRun l) :
    (∃ before s₁, Acknowledged before s₁ ∧
      l = before ++ [⟨some .resume, s₁, .acted .resumed⟩] ∧ s' = s₁.apply .resumed) ∧
    s'.status.stopped = false ∧
    (s'.status.hit = true ↔ Since Moment.ReportsHit Moment.ClearsHit l) ∧
    ∀ k s'' pre m post status, Reaches Call.Stays s' k s'' → k = pre ++ m :: post →
      m.what = .acted (.reading status) → status.hit = true → (∀ x ∈ pre, ¬x.ReportsHit) →
      (.breakpointHit ∈ m.events ↔
        (Since Moment.ReportsHit Moment.ClearsHit l → ∃ x ∈ pre, x.ClearsHit)) := by
  have hs : s.isConnected = true ∧ s.status.stopped = true := by
    refine Decidable.byContradiction fun hs => ?_
    obtain ⟨m, hm, -⟩ := hsent
    simp [Op.runs_resume_eq_nil hl hs] at hm
  have hshape : ∃ before s₁, Acknowledged before s₁ ∧
      l = before ++ [⟨some .resume, s₁, .acted .resumed⟩] ∧ s' = s₁.apply .resumed :=
    Op.keeps_resume_acknowledged (h := []) hs.2 hl
  have hhit : s'.status.hit = true ↔ Since Moment.ReportsHit Moment.ClearsHit l := by
    have hr := Reaches.of_resume hl
    rw [hr.follows.hit_eq_true_iff fun m hm => ⟨hr.proper m hm, hr.timely m hm⟩]
    -- The request itself has cleared the flag of before.
    obtain ⟨m, l', rfl, hm⟩ := (Op.runs_resume_begins hl).mpr hs
    simp [Moment.ClearsHit, hm]
  refine ⟨hshape, ?_, hhit, ?_⟩
  · obtain ⟨before, s₁, -, -, rfl⟩ := hshape
    simp [Session.apply]
  · intro k s'' pre m post status hr heq hw hstatus hpre
    rw [hr.breakpointHit_mem_events heq hw, since_iff_exists hpre, and_iff_left hpre, ← hhit]
    cases s'.status.hit <;> simp [hstatus]

/-- A poll ends while a request to run waits for the permit. The request succeeds, and leaves the
hit flag set. -/
theorem resumed_unless_overtaken_by_poll :
    let s := (Session.new {} (by decide)).apply .connected
    ∃ l s', Runs (some .resume) Op.resume.run s l s' (some (.ok ())) ∧ AskedToRun l ∧
      s'.status.stopped = false ∧ s'.status.hit = true ∧
      Since Moment.ReportsHit Moment.ClearsHit l := by
  intro s
  have hstirs : Stirs (s.apply .resuming)
      [⟨none, s.apply .resuming, .ended Op.statusRequest (.reply [0, 0, 3])⟩,
        ⟨none, s.apply .resuming, .acted (.reading ⟨3⟩)⟩] _ := .reads nofun rfl
  have hrun : ∃ l s', Runs (some .resume) ((do
      Op.act .resuming
      let _ ← Op.command (.bare Opcode.run)
      Op.act .resumed) : Op Unit).run s l s' (some (.ok ())) ∧ AskedToRun l ∧
      s'.status.hit = true := by
    refine ⟨_, _, .act (.acquire 0 true (.cons hstirs (.nil _))
      (Prog.runs_replay _ _ _ [.reply [5, 0]])), ?_, ?_⟩ <;> decide +kernel
  obtain ⟨l, s', hl, hsent, hhit⟩ := hrun
  have hs : s.isConnected = true := by decide +kernel
  have hstopped : s.status.stopped = true := by decide +kernel
  have honward := Op.onward_resume hs
  rw [if_pos hstopped] at honward
  rw [← runs_onward_iff, ← honward, runs_onward_iff] at hl
  have hlaw := resumed_unless_overtaken hl hsent
  exact ⟨l, s', hl, hsent, hlaw.2.1, hhit, hlaw.2.2.1.mp hhit⟩

/-- A poll was made after 10 ms, and the device takes another 18 ms to answer it. Some of them have
passed. -/
def World.polledLate : World :=
  let device : Device := { script := [(Opcode.readStatus, [.answer [] 18])] }
  let w := World.new (Session.new { statusPoll := 10 } (by decide)) .reachable device
  (w.calling [.connect]).advance 15

/-- The device is asked to run and is on a breakpoint again at once, and two more polls are made. -/
def World.hitAgain : World :=
  let w := World.polledLate.calling [.resume]
  { w with device := { w.device with status := 3 } }.advance 20

theorem World.reached_hitAgain : World.hitAgain.Reached := by
  have hpolled : World.polledLate.Reached := ((Reached.new _ _ _ _).calling _).advance 15
  exact ((hpolled.calling [.resume]).device _).advance 20

/-- A request to run succeeds and leaves the hit flag set, with the answer to a poll from before the
request. When the device reaches a breakpoint after that, polls read it and nothing is reported. -/
theorem breakpoint_lost_after_resume :
    let w := World.polledLate.calling [.resume]
    World.polledLate.session.status.stopped = true ∧
      (World.polledLate.run Op.resume.run).1.toOption = some () ∧
      w.requests = [Op.statusRequest, (Wire.Packet.bare Opcode.run).encode] ∧
      w.session.status.stopped = false ∧ w.session.status.hit = true ∧
      World.hitAgain.Reached ∧ World.hitAgain.session.status.hit = true ∧
      World.hitAgain.requests = w.requests ++ [Op.statusRequest, Op.statusRequest] ∧
      World.hitAgain.session.status.stopped = true ∧
      World.hitAgain.mailbox = w.mailbox := by
  refine ⟨?_, ?_, ?_, ?_, ?_, World.reached_hitAgain, ?_, ?_, ?_, ?_⟩ <;> decide +kernel

end RemoteDebug
