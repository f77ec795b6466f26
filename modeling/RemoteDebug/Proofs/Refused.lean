import Mathlib.Data.List.Nodup
import RemoteDebug.Proofs.Overtaken

/-!
# Requests to run that fail

A request to run clears the hit flag before it is sent, and does not set it again when it fails. The
breakpoints stay as they are. The status does so exactly if the hit flag was clear from the start
(`resume_failed_clears_hit`). If it was not, the device still stands on its breakpoint, and the next
reading that says so is reported as a new hit (`standing_hit_reported`).
-/

namespace RemoteDebug

open Wire (Opcode)

/-- Clearing the hit flag changes every status that has it. -/
theorem Status.clear_hitBit_eq_self_iff (s : Status) : s.clear hitBit = s ↔ s.hit = false := by
  constructor
  · intro h
    rw [← h, hit_clear_hitBit]
  · intro h
    have hbits : ∀ bits : BitVec 8, bits &&& 2 = 0 → bits &&& ~~~2 = bits := by decide +kernel
    have hzero : s.bits &&& hitBit = 0 := by simpa [hit] using h
    have hclear := hbits s.bits.toBitVec (congrArg UInt8.toBitVec hzero)
    exact congrArg Status.mk (UInt8.toBitVec_inj.mp hclear)

/-- No status was read. -/
def Unread (h : History) : Prop := ∀ m ∈ h, ∀ status, m.what ≠ .acted (.reading status)

theorem unread_append {h l : History} : Unread (h ++ l) ↔ Unread h ∧ Unread l :=
  List.forall_mem_append

/-- The session is that of before, but for the hit flag, the frames and the connection, as long as
no status was read. -/
def HitCleared (s₀ : Session) (h : History) (s : Session) : Prop :=
  s.breakpoints = s₀.breakpoints ∧ (Unread h → s.status = s₀.status.clear Status.hitBit)

theorem HitCleared.snoc {s₀ s s' : Session} {h : History} {m : Moment} (hh : HitCleared s₀ h s)
    (hb : s'.breakpoints = s.breakpoints) (hs : s'.status = s.status) :
    HitCleared s₀ (h ++ [m]) s' :=
  ⟨hb.trans hh.1, fun hun => hs.trans (hh.2 (unread_append.mp hun).1)⟩

theorem HitCleared.stable (s₀ : Session) : Stable (HitCleared s₀) := by
  refine Stable.of_stirs fun {h s l s'} hh hl => ?_
  cases hl with
  | asks => exact hh.snoc rfl rfl
  | misses => exact hh.snoc rfl rfl
  | reads =>
    refine ⟨hh.1, fun hun => ?_⟩
    have hread := (unread_append.mp hun).2
    simp [Unread] at hread
  | loses cause =>
    refine hh.snoc ?_ (s.status_apply_lost cause)
    simp only [Session.apply]
    split <;> rfl

/-- A request to run that has begun does nothing else to status and breakpoints, unless it
succeeds. -/
theorem Op.keeps_resuming (s₀ : Session) :
    (do
      act .resuming
      let _ ← command (.bare Opcode.run)
      act .resumed : Op Unit).Keeps (some .resume) (HitCleared s₀) (fun h s => h = [] ∧ s = s₀)
        fun _ _ _ => True := by
  have hstable := HitCleared.stable s₀
  refine keeps_bind (R := fun _ => HitCleared s₀) (keeps_act ?_) fun _ => ?_
  · rintro h s ⟨rfl, rfl⟩
    exact ⟨rfl, fun _ => rfl⟩
  refine keeps_bind (R := fun _ _ _ => True) ?_ fun _ => keeps_act fun _ => trivial
  exact keeps_command hstable id (fun hh => hh.snoc rfl rfl) hstable id (fun _ _ => trivial)
    fun hh _ => hh.snoc rfl rfl

/-! ## The law -/

/-- A request to run that fails on a connection has found the device halted, and leaves the
breakpoints as they were. If no status was read meanwhile, the status is that of before without the
hit flag. So it has changed exactly if the flag was set, and the first reading after it that has the
flag set reports a hit, whether or not the device has moved. -/
theorem resume_failed_clears_hit {s s' : Session} {l : History} {e : Failure}
    (hs : s.isConnected = true)
    (hl : Runs (some .resume) Op.resume.run s l s' (some (.error e))) :
    s.status.stopped = true ∧ s'.breakpoints = s.breakpoints ∧
    ((∀ m ∈ l, ∀ status, m.what ≠ .acted (.reading status)) →
      s'.status = s.status.clear Status.hitBit ∧
      (s'.status = s.status ↔ s.status.hit = false) ∧
      ∀ k s'' pre m post status, Reaches Call.Stays s' k s'' → k = pre ++ m :: post →
        m.what = .acted (.reading status) → status.hit = true → (∀ x ∈ pre, ¬x.ReportsHit) →
        .breakpointHit ∈ m.events) := by
  have honward := Op.onward_resume hs
  have hstopped : s.status.stopped = true := by
    refine Decidable.byContradiction fun hrunning => ?_
    rw [if_neg hrunning] at honward
    have hend := ((Op.atOnce_of_onward honward _ _ _ _).mp hl).2.2
    cases hend
  rw [if_pos hstopped] at honward
  have hrun := hl
  rw [← runs_onward_iff, honward, runs_onward_iff] at hrun
  have hcleared : HitCleared s l s' := Op.keeps_resuming s (h := []) ⟨rfl, rfl⟩ hrun
  refine ⟨hstopped, hcleared.1, fun hun => ?_⟩
  have hstatus := hcleared.2 hun
  refine ⟨hstatus, by rw [hstatus, Status.clear_hitBit_eq_self_iff], ?_⟩
  intro k s'' pre m post status hr heq hw hhit hpre
  rw [hr.breakpointHit_mem_events heq hw]
  refine ⟨hhit, Or.inr ⟨?_, hpre⟩⟩
  rw [hstatus, Status.hit_clear_hitBit]

/-- The device refuses to run. The status has changed, and a poll that finds the device where it was
reports a hit. -/
theorem resume_failed_clears_hit_refused :
    let s := (Session.new {} Config.valid_default).apply .connected
    let r := Op.resume.run.replay (some .resume) s [.reply [5, 1]]
    let m : Moment := ⟨none, r.2.1, .acted (.reading s.status)⟩
    Runs (some .resume) Op.resume.run s r.1 r.2.1 (some (.error (.rejected Opcode.run 1))) ∧
      (∀ m ∈ r.1, ∀ status, m.what ≠ .acted (.reading status)) ∧
      r.2.1.status ≠ s.status ∧ .breakpointHit ∈ m.events := by
  intro s r m
  have hrun : Runs (some .resume) Op.resume.run s r.1 r.2.1
      (some (.error (.rejected Opcode.run 1))) := by
    have hresult : r.2.2 = some (.error (.rejected Opcode.run 1)) := by decide +kernel
    rw [← hresult]
    exact Prog.runs_replay _ _ _ _
  have hun : ∀ m ∈ r.1, ∀ status, m.what ≠ .acted (.reading status) := by
    have hacts : r.1.map (·.what) = [.acted .resuming, .sent [5], .ended [5] (.reply [5, 1])] := by
      decide +kernel
    intro m hm status hw
    have hmem := List.mem_map_of_mem (f := (·.what)) hm
    rw [hacts, hw] at hmem
    simp at hmem
  obtain ⟨-, -, hlaw⟩ := resume_failed_clears_hit rfl hrun
  obtain ⟨-, hsame, hreport⟩ := hlaw hun
  let x : Moment := ⟨none, r.2.1, .ended Op.statusRequest (.reply [0, 0, 3])⟩
  have hstirs : Stirs r.2.1 [x, m] m.after := .reads (by decide +kernel) rfl
  have hpoll : Reaches Call.Stays r.2.1 [x, m] m.after := Reaches.refl.idle hstirs.idle
  refine ⟨hrun, hun, fun h => ?_, hreport _ _ [x] m [] _ hpoll rfl rfl (by decide +kernel) ?_⟩
  · exact absurd (hsame.mp h) (by decide +kernel)
  · simp [Moment.ReportsHit, x]

/-- A session with a device that refuses to run, and stands on a breakpoint. -/
def World.unwilling : World :=
  let device : Device := { script := [(Opcode.run, [.code 1 0])] }
  let w := World.new (Session.new {} Config.valid_default) .reachable device
  w.calling [.connect]

theorem World.reached_unwilling : World.unwilling.Reached := (Reached.new _ _ _ _).calling _

/-- The device refuses to run and does not move. No status was read in the course of the request,
which has changed the status of the session all the same. The next poll reads the status of before,
and reports the breakpoint on which the device was standing all the time as a hit. -/
theorem standing_hit_reported :
    let w := World.unwilling
    let w' := (w.run Op.resume.run).2
    w.Reached ∧ w.session.isConnected = true ∧ w.session.status = Status.initial ∧
      (w.run Op.resume.run).1 = .error (.rejected Opcode.run 1) ∧
      w'.requests = w.requests ++ [(Wire.Packet.bare Opcode.run).encode] ∧
      w'.session.breakpoints = w.session.breakpoints ∧ w'.session.status ≠ w.session.status ∧
      w'.device.status = w.device.status ∧ w'.mailbox.events = [] ∧
      (w'.advance 100).session.status = Status.initial ∧
      (w'.advance 100).mailbox.events = [.breakpointHit] := by
  refine ⟨World.reached_unwilling, ?_, ?_, ?_, ?_, ?_, ?_, ?_, ?_, ?_, ?_⟩ <;> decide +kernel

end RemoteDebug
