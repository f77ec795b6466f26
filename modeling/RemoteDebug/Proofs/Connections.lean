import RemoteDebug.Proofs.Hits

/-!
# One connection after the other

A session makes connections and lets go of them, and may lose them in between. Two laws say what
that leaves behind. A session that holds no connection knows nothing of any device, whatever
happened before, and a new connection starts from there (`blank_without_link`). And each connection
is reported closed once, by whoever ends it first (`closed_once_per_connection`).

Both follow from where acts can happen. A connection is made only where there is none, and what a
session knows of a device changes only while it holds a connection (`Moment.Linked`). The programs
see to that, since without a connection every call that could do so ends at once
(`Call.onward_eq_done`), and a connection that is lost is not let go of. The rest is an induction
over the moments of a history.
-/

namespace RemoteDebug

/-! ## Acts and the connection -/

/-- The moment finds the connection that its act needs. -/
def Moment.Linked (m : Moment) : Prop :=
  match m.what with
  | .acted .connected => m.session.link = .absent
  | .acted .disconnected | .acted (.lost _) | .acted (.loaded _) => True
  | .acted _ => m.session.link ≠ .absent
  | _ => True

/-- Everything so far found the connection that it needs. -/
def AllLinked (h : History) (_ : Session) : Prop := ∀ m ∈ h, m.Linked

theorem AllLinked.snoc {h : History} {s s' : Session} {m : Moment} (hh : AllLinked h s)
    (hm : m.Linked) : AllLinked (h ++ [m]) s' :=
  List.forall_mem_append.mpr ⟨hh, List.forall_mem_singleton.mpr hm⟩

theorem AllLinked.stable : Stable AllLinked := by
  refine Stable.of_moments fun hl => ?_
  cases hl with
  | asks => simp [Moment.Linked]
  | misses => simp [Moment.Linked]
  | reads hs => simp [Moment.Linked, hs]
  | loses => simp [Moment.Linked]

/-- The act is one of a session that holds a connection, and leaves it that. -/
def Act.Steady (a : Act) : Prop :=
  a ≠ .connected ∧ a ≠ .disconnected ∧ ∀ cause, a ≠ .lost cause

theorem Act.Steady.linked {a : Act} {c : Option Call} {s : Session} (ha : a.Steady)
    (hs : s.link ≠ .absent) : Moment.Linked ⟨c, s, .acted a⟩ := by
  cases a with
  | connected => exact absurd rfl ha.1
  | disconnected => trivial
  | lost cause => trivial
  | loaded registry => trivial
  | _ => exact hs

theorem Call.May.steady {c : Call} {a : Act} (ha : c.May a) (hc : c.Stays) : a.Steady := by
  refine ⟨?_, ?_, ?_⟩
  · rintro rfl
    exact hc.1 ha
  · rintro rfl
    exact ha.elim hc.1 hc.2
  · rintro cause rfl
    exact ha

/-! ## What calls need -/

namespace Op

variable {α : Type} {s : Session}

theorem onward_program {op : Op α} {r : Except Failure α} (h : op.run.onward s = .done r) :
    op.program.onward s = .done () :=
  Prog.onward_bind_of_done h _

theorem onward_program_requireLink (hs : s.isConnected = false) (f : Unit → Op α) :
    (requireLink >>= f).program.onward s = .done () := by
  refine onward_program (r := .error .notConnected) ?_
  rw [onward_requireLink_bind, hs]
  rfl

/-- Without a connection, a frame comes from those at hand, or not at all. -/
theorem onward_topFrame (hs : s.isConnected = false) :
    ∃ r, topFrame.run.onward s = .done r := by
  rw [topFrame, onward_session_bind]
  split
  · exact ⟨_, rfl⟩
  · exact ⟨_, Prog.onward_bind_of_done (onward_readFrame hs 0) _⟩

theorem onward_stackFrames (hs : s.isConnected = false) :
    ∃ r, stackFrames.run.onward s = .done r := by
  rw [stackFrames, onward_session_bind]
  split
  · exact ⟨_, rfl⟩
  · exact ⟨_, Prog.onward_bind_of_done (onward_readFrame hs 0) _⟩

theorem onward_stackFrame (hs : s.isConnected = false) (index : UInt32) :
    ∃ r, (stackFrame index).run.onward s = .done r := by
  rw [stackFrame]
  split
  · exact onward_topFrame hs
  · exact ⟨_, onward_readFrame hs index⟩

end Op

/-- Without a connection, every call ends at once that neither makes nor ends one, nor loads
classes. -/
theorem Call.onward_eq_done {c : Call} {s : Session} (hc : c.Stays)
    (hload : ∀ registry, c ≠ .load registry) (hs : s.isConnected = false) :
    c.program.onward s = .done () := by
  cases c with
  | connect => exact absurd rfl hc.1
  | disconnect => exact absurd rfl hc.2
  | load registry => exact absurd rfl (hload registry)
  | sendRaw request => exact Op.onward_program_requireLink hs _
  | setBreakpoints lines source => exact Op.onward_program_requireLink hs _
  | removeAllBreakpoints => exact Op.onward_program_requireLink hs _
  | resume => exact Op.onward_program_requireLink hs _
  | stop => exact Op.onward_program_requireLink hs _
  | stepIn => exact Op.onward_program_requireLink hs _
  | stackFrame index =>
    obtain ⟨r, hr⟩ := Op.onward_stackFrame hs index
    exact Op.onward_program hr
  | stackFrames =>
    obtain ⟨r, hr⟩ := Op.onward_stackFrames hs
    exact Op.onward_program hr

/-- A call on a connection acts on that connection to its end. -/
theorem AllLinked.keeps_stays {c : Call} (hc : c.Stays) :
    Meets (some c) AllLinked (fun h s => AllLinked h s ∧ HasLink h s) c.program
      fun _ => AllLinked := by
  have hstable := AllLinked.stable.and HasLink.stable
  have hmeets := c.only.meets (c := some c) hstable (fun {a h s} ha hh => ?_)
    (fun _ hh => ⟨hh.1.snoc trivial, hh.2⟩) fun _ hh => ⟨hh.1.snoc trivial, hh.2⟩
  · intro h s l s' r hs hr
    have hend := hmeets hs hr
    cases r with
    | none => exact hend.1
    | some _ => exact hend.1
  · have hsteady := ha.steady hc
    refine ⟨hh.1.snoc (hsteady.linked hh.2), ?_⟩
    rw [HasLink, s.link_apply hsteady.1 hsteady.2.1 hsteady.2.2]
    exact hh.2

theorem AllLinked.keeps_call (c : Call) :
    Meets (some c) AllLinked AllLinked c.program fun _ => AllLinked := by
  by_cases hconnect : c = .connect
  · subst hconnect
    refine meets_bind (R := fun _ => AllLinked) ?_ fun _ => meets_done id
    intro h s l s' r hh hr
    have hend : AllLinked (h ++ l) s' := by
      rcases Op.runs_connect_cases hr with ⟨-, rfl, rfl⟩ | ⟨-, rfl, rfl⟩
      · exact hh.snoc trivial
      · have hfirst : AllLinked (h ++ [⟨some .connect, s, .acted .disconnected⟩]) s :=
          hh.snoc trivial
        rw [List.append_cons]
        exact hfirst.snoc s.link_disconnected
    cases r <;> exact hend
  by_cases hfree : c = .disconnect ∨ ∃ registry, c = .load registry
  · refine c.only.meets AllLinked.stable (fun {a h s} ha hh => hh.snoc ?_)
      (fun _ hh => hh.snoc trivial) fun _ hh => hh.snoc trivial
    rcases hfree with rfl | ⟨registry, rfl⟩ <;> cases a <;> simp_all [Moment.Linked, Call.May]
  · have hc : c.Stays := ⟨hconnect, fun h => hfree (Or.inl h)⟩
    intro h s l s' r hh hr
    cases hs : s.isConnected with
    | true => exact AllLinked.keeps_stays hc ⟨hh, hasLink_of_isConnected hs⟩ hr
    | false =>
      rw [← runs_onward_iff, Call.onward_eq_done hc (fun r h => hfree (Or.inr ⟨r, h⟩)) hs] at hr
      cases hr
      simpa using hh

theorem Reaches.linked {allowed : Call → Prop} {start s : Session} {h : History}
    (hr : Reaches allowed start h s) : ∀ m ∈ h, m.Linked :=
  hr.keeps (I := AllLinked) (by simp [AllLinked]) AllLinked.stable fun c _ => AllLinked.keeps_call c

/-! ## A clean slate -/

/-- Without a connection, the session knows nothing of a device. -/
def Session.Blank (s : Session) : Prop :=
  s.link = .absent → s.status = Status.initial ∧ s.frames = none ∧ s.breakpoints = []

theorem Session.blank_clean (s : Session) (link : Link) : (s.clean link).Blank :=
  fun _ => ⟨rfl, rfl, rfl⟩

theorem Session.blank_of_link {s : Session} (hs : s.link ≠ .absent) : s.Blank :=
  fun h => absurd h hs

theorem Moment.blank_after {m : Moment} (hm : m.Linked) (hs : m.session.Blank) :
    m.after.Blank := by
  obtain ⟨c, s, what⟩ := m
  cases what with
  | sent request => exact hs
  | ended request o => exact hs
  | acted a =>
    cases a with
    | connected => exact s.blank_clean .up
    | disconnected =>
      simp only [after, Session.apply]
      split
      · exact hs
      · exact s.blank_clean .absent
    | lost cause =>
      simp only [after, Session.apply]
      split
      · exact Session.blank_of_link (by simp)
      · exact hs
    | loaded registry => exact hs
    -- The others do not touch the connection, and there is one.
    | _ => exact Session.blank_of_link hm

theorem Reaches.blank {allowed : Call → Prop} {config : Config} {valid : config.Valid}
    {h : History} {s : Session} (hr : Reaches allowed (Session.new config valid) h s) : s.Blank :=
  hr.follows.keeps (fun _ => ⟨rfl, rfl, rfl⟩) fun m hm => m.blank_after (hr.linked m hm)

/-- Letting go of a connection leaves a session without one as it is, and clears any other. -/
theorem Session.Blank.apply_disconnected {s : Session} (hs : s.Blank) :
    s.apply .disconnected = s.clean .absent := by
  simp only [Session.apply]
  split
  · next hl =>
    obtain ⟨hstatus, hframes, hbreakpoints⟩ := hs hl
    simp only [Session.clean, ← hstatus, ← hframes, ← hbreakpoints, ← hl]
  · rfl

theorem Op.runs_disconnect {c : Option Call} {s s' : Session} {l : History}
    {r : Option (Except Failure Unit)} (h : Runs c disconnect.run s l s' r) :
    l = [⟨c, s, .acted .disconnected⟩] ∧ s' = s.apply .disconnected ∧ r = some (.ok ()) := by
  cases h with
  | act h =>
    cases h
    exact ⟨rfl, rfl, rfl⟩

/-- Wherever calls lead : a session that holds no connection has the status of before the first
report, no frames and no breakpoints. A successful attempt to connect ends in that same state, with
a connection, whatever the session was before, and a failed one without a connection, as letting go
of the connection does. Letting go without a connection changes nothing, and reports and sends
nothing. -/
theorem blank_without_link (config : Config) (valid : config.Valid) {h : History} {s : Session}
    (hr : Reaches (fun _ => True) (Session.new config valid) h s) :
    (s.link = .absent → s.status = ⟨3⟩ ∧ s.frames = none ∧ s.breakpoints = []) ∧
    (∀ l s', Runs (some .connect) Op.connect.run s l s' (some (.ok ())) →
      s' = { s with link := .up, status := ⟨3⟩, frames := none, breakpoints := [] }) ∧
    (∀ l s' r, Runs (some .connect) Op.connect.run s l s' r → r ≠ some (.ok ()) →
      s' = { s with link := .absent, status := ⟨3⟩, frames := none, breakpoints := [] }) ∧
    (∀ l s' r, Runs (some .disconnect) Op.disconnect.run s l s' r →
      s' = { s with link := .absent, status := ⟨3⟩, frames := none, breakpoints := [] } ∧
      (s.link = .absent →
        s' = s ∧ ∀ m ∈ l, m.events = [] ∧ ∀ request, m.what ≠ .sent request)) := by
  have hgone := hr.blank.apply_disconnected
  refine ⟨hr.blank, ?_, ?_, ?_⟩
  · intro l s' hl
    rcases Op.runs_connect_cases hl with ⟨hne, -⟩ | ⟨-, rfl, -⟩
    · exact absurd rfl hne
    · rw [hgone]
      rfl
  · intro l s' r hl hne
    rcases Op.runs_connect_cases hl with ⟨-, -, rfl⟩ | ⟨heq, -⟩
    · exact hgone
    · exact absurd heq hne
  · intro l s' r hl
    obtain ⟨rfl, rfl, -⟩ := Op.runs_disconnect hl
    refine ⟨hgone, fun habsent => ⟨by simp [Session.apply, habsent], ?_⟩⟩
    simp [Moment.events, Session.events, habsent]

/-- A session that holds a frame and a breakpoint reaches for the device again, in vain : nothing of
the earlier connection is left. -/
theorem blank_without_link_after_refusal :
    let frame : Wire.Frame := ⟨0, 4, "A", "m", "()V"⟩
    let s₀ := Session.new {} (by decide)
    let s := (s₀.replay [(.connect, []), (.load (.twoLines 0), []),
      (.stackFrames, [.reply (1 :: 0 :: frame.encode true 0 0 0)]),
      (.setBreakpoints [5] "A.java", [.reply [2, 0]])]).2
    s.frames ≠ none ∧ s.breakpoints ≠ [] ∧
      ∃ l s', Runs (some .connect) Op.connect.run s l s' (some (.error (.io .refused))) ∧
        s' = { s with link := .absent, status := ⟨3⟩, frames := none, breakpoints := [] } := by
  intro frame s₀ s
  have hr : Reaches (fun _ => True) s₀ _ s := Reaches.replay _ _ fun _ _ => trivial
  have hrefused : Runs (some .connect) Op.connect.run s _ _ (some (.error (.io .refused))) :=
    .act (.dial (.error .refused) (.done _ _))
  refine ⟨by decide +kernel, by decide +kernel, _, _, hrefused, ?_⟩
  exact (blank_without_link _ _ hr).2.2.1 _ _ _ hrefused nofun

/-! ## Reports of connections -/

/-- What a history reports. -/
def eventsIn (h : History) : List Event := h.flatMap Moment.events

/-- What a history reports of connections. -/
def reportsIn (h : History) : List Event := (eventsIn h).filter (· ≠ .breakpointHit)

theorem reportsIn_append (h l : History) : reportsIn (h ++ l) = reportsIn h ++ reportsIn l := by
  simp [reportsIn, eventsIn]

theorem count_closed_eventsIn (h : History) :
    (eventsIn h).count .connectionClosed = (reportsIn h).count .connectionClosed := by
  rw [reportsIn, List.count_filter (by simp)]

/-- A connection is made. -/
def Moment.Connects (m : Moment) : Prop := m.what = .acted .connected

instance : DecidablePred Moment.Connects := fun m =>
  inferInstanceAs (Decidable (m.what = .acted .connected))

theorem Moment.Connects.opens {m : Moment} (hc : m.Connects) (hm : m.Linked) :
    m.session.isConnected = false ∧ m.after.isConnected = true ∧ reportsIn [m] = [] := by
  obtain ⟨c, s, what⟩ := m
  cases hc
  have hs : s.link = .absent := hm
  exact ⟨by simp [Session.isConnected, hs], rfl, rfl⟩

/-- What is reported when a connection ends : that it is closed, and before that why, if reading
from it failed. -/
def Moment.ReportsEnd (m : Moment) (reports : List Event) : Prop :=
  reports = [.connectionClosed] ∨ ∃ fault, m.what = .acted (.lost (some fault)) ∧
    reports = [.connectionError fault.message, .connectionClosed]

/-- A moment that makes no connection leaves things as they are, or ends the connection and reports
that. -/
theorem Moment.keeps_or_ends {m : Moment} (hm : ¬m.Connects) :
    (m.after.isConnected = m.session.isConnected ∧ reportsIn [m] = []) ∨
      (m.session.isConnected = true ∧ m.after.isConnected = false ∧
        m.ReportsEnd (reportsIn [m])) := by
  obtain ⟨c, s, what⟩ := m
  cases what with
  | sent request => exact Or.inl ⟨rfl, rfl⟩
  | ended request o => exact Or.inl ⟨rfl, rfl⟩
  | acted a =>
    cases a with
    | connected => exact absurd rfl hm
    | disconnected =>
      cases hs : s.link with
      | absent => simp [after, Session.apply, hs, reportsIn, eventsIn, events, Session.events]
      | up => simp [after, Session.apply, Session.clean, Session.isConnected, hs, ReportsEnd,
          reportsIn, eventsIn, events, Session.events]
      | lost =>
        refine Or.inl ⟨?_, by simp [reportsIn, eventsIn, events, Session.events, hs]⟩
        rw [after, Session.isConnected, Session.link_disconnected, Session.isConnected, hs]
        rfl
    | lost cause =>
      by_cases hs : s.link = .up
      · cases cause <;> simp [after, Session.apply, Session.isConnected, hs, ReportsEnd, reportsIn,
          eventsIn, events, Session.events]
      · simp [after, Session.apply, hs, reportsIn, eventsIn, events, Session.events]
    | reading status =>
      refine Or.inl ⟨rfl, ?_⟩
      by_cases hhit : (Status.Change.between s.status status).breakpointHit <;>
        simp [reportsIn, eventsIn, events, Session.events, hhit]
    | _ => exact Or.inl ⟨rfl, rfl⟩

/-- Each connection was reported closed, but for the one that there is. -/
theorem Follows.count_closed {start s : Session} {h : History} (hf : Follows start h s)
    (hh : ∀ m ∈ h, m.Linked) (hs : start.isConnected = false) :
    (reportsIn h).count .connectionClosed + (if s.isConnected then 1 else 0) =
      h.countP (·.Connects) := by
  induction hf with
  | nil => simp [reportsIn, eventsIn, hs]
  | snoc m hf ih =>
    have ih := ih fun x hx => hh x (by simp [hx])
    rw [reportsIn_append, List.count_append, List.countP_append, List.countP_singleton, ← ih]
    by_cases hc : m.Connects
    · obtain ⟨hbefore, hafter, hnone⟩ := hc.opens (hh m (by simp))
      simp [hbefore, hafter, hnone, hc]
    · rcases m.keeps_or_ends hc with ⟨hsame, hnone⟩ | ⟨hbefore, hafter, hend⟩
      · simp [hsame, hnone, hc]
      · rcases hend with hend | ⟨fault, -, hend⟩ <;> simp [hbefore, hafter, hend, hc]

/-- What is reported in the course of one connection. -/
theorem Follows.reports {start s : Session} {l : History} (hf : Follows start l s)
    (hl : ∀ m ∈ l, ¬m.Connects) :
    (s.isConnected = start.isConnected ∧ reportsIn l = []) ∨
      (start.isConnected = true ∧ s.isConnected = false ∧ ∃ m ∈ l, m.ReportsEnd (reportsIn l)) := by
  induction hf with
  | nil => exact Or.inl ⟨rfl, rfl⟩
  | snoc m hf ih =>
    have hm := m.keeps_or_ends (hl m (by simp))
    rcases ih fun x hx => hl x (by simp [hx]) with ⟨hsame, hnone⟩ | ⟨hup, hdown, x, hx, hend⟩
    · rw [reportsIn_append, hnone, List.nil_append, ← hsame]
      exact hm.imp_right fun ⟨hbefore, hafter, hend⟩ => ⟨hbefore, hafter, m, by simp, hend⟩
    · -- A connection that has ended does not end again.
      rcases hm with ⟨hsame, hnone⟩ | ⟨hbefore, -⟩
      · rw [reportsIn_append, hnone, List.append_nil, hsame]
        exact Or.inr ⟨hup, hdown, x, by simp [hx], hend⟩
      · rw [hdown] at hbefore
        cases hbefore

theorem Op.countP_connects {c : Option Call} {s s' : Session} {l : History}
    {r : Option (Except Failure Unit)} (h : Runs c connect.run s l s' r) :
    (r = some (.ok ()) → l.countP (·.Connects) = 1) ∧
      (r ≠ some (.ok ()) → l.countP (·.Connects) = 0) := by
  rcases runs_connect_cases h with ⟨hr, rfl, -⟩ | ⟨hr, -, rfl⟩
  · exact ⟨fun h => absurd h hr, fun _ => rfl⟩
  · exact ⟨fun _ => rfl, fun h => absurd hr h⟩

/-- Wherever calls lead, and however connections end : as many connections were reported closed as
were made, but for the one that there is. In the course of one connection nothing is reported of
connections, or that it is closed, or that reading from it failed and then that it is closed. Before
the first connection nothing is reported. An attempt to connect makes a connection if it succeeds,
and nothing else makes one. -/
theorem closed_once_per_connection (config : Config) (valid : config.Valid) {h : History}
    {s : Session} (hr : Reaches (fun _ => True) (Session.new config valid) h s) :
    (eventsIn h).count .connectionClosed + (if s.isConnected then 1 else 0) =
      h.countP (·.Connects) ∧
    (∀ pre m l post, h = pre ++ m :: (l ++ post) → m.Connects → (∀ x ∈ l, ¬x.Connects) →
      reportsIn l = [] ∨ reportsIn l = [.connectionClosed] ∨
        ∃ x ∈ l, ∃ fault, x.what = .acted (.lost (some fault)) ∧
          reportsIn l = [.connectionError fault.message, .connectionClosed]) ∧
    (∀ l post, h = l ++ post → (∀ x ∈ l, ¬x.Connects) → reportsIn l = []) ∧
    (∀ s l s' r, Runs (some .connect) Op.connect.run s l s' r →
      (r = some (.ok ()) → l.countP (·.Connects) = 1) ∧
        (r ≠ some (.ok ()) → l.countP (·.Connects) = 0)) ∧
    (∀ m ∈ h, m.Connects → m.call = some .connect) := by
  refine ⟨?_, ?_, ?_, fun _ _ _ _ => Op.countP_connects, ?_⟩
  · rw [count_closed_eventsIn]
    exact hr.follows.count_closed hr.linked rfl
  · rintro pre m l post rfl hm hl
    obtain ⟨s₁, -, hf⟩ := Follows.of_append (l := m :: (l ++ post)) hr.follows
    obtain ⟨s₂, -, hf⟩ := Follows.of_append (h := [m]) hf
    obtain ⟨s₃, hf, -⟩ := hf.of_append
    rcases hf.reports hl with ⟨-, hnone⟩ | ⟨-, -, x, hx, hend | ⟨fault, hw, hend⟩⟩
    · exact Or.inl hnone
    · exact Or.inr (Or.inl hend)
    · exact Or.inr (Or.inr ⟨x, hx, fault, hw, hend⟩)
  · rintro l post rfl hl
    obtain ⟨s₁, hf, -⟩ := hr.follows.of_append
    rcases hf.reports hl with ⟨-, hnone⟩ | ⟨hup, -⟩
    · exact hnone
    · cases hup
  · intro m hm hc
    obtain ⟨c, hcall, -, hmay⟩ := (hr.proper m hm).called hc nofun nofun
    rwa [hmay] at hcall

/-- A connection is reset and another one is made : the first has its reports, and the second is
the one that there is. -/
theorem closed_once_per_connection_reset :
    let s₀ := Session.new {} (by decide)
    let up := s₀.replay [(.connect, [])]
    let reset : Moment := ⟨none, up.2, .acted (.lost (some .reset))⟩
    let again := reset.after.replay [(.connect, [])]
    let h := up.1 ++ [reset] ++ again.1
    reportsIn h = [.connectionError Fault.reset.message, .connectionClosed] ∧
      again.2.isConnected = true ∧ h.countP (·.Connects) = 2 ∧
      (eventsIn h).count .connectionClosed + (if again.2.isConnected then 1 else 0) =
        h.countP (·.Connects) := by
  intro s₀ up reset again h
  have hup : Reaches (fun _ => True) s₀ up.1 up.2 := Reaches.replay _ _ fun _ _ => trivial
  have hreset : Reaches (fun _ => True) s₀ (up.1 ++ [reset]) reset.after :=
    hup.idle (Stirs.loses up.2 (some .reset)).idle
  have hagain : Reaches (fun _ => True) s₀ h again.2 :=
    hreset.call .connect trivial (Prog.runs_replay _ _ _ [])
  refine ⟨by decide +kernel, by decide +kernel, by decide +kernel, ?_⟩
  exact (closed_once_per_connection _ _ hagain).1

end RemoteDebug
