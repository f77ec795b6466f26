import RemoteDebug.Proofs.Watched
import RemoteDebug.Proofs.Spending

/-!
# Waiting for the device to stop

Who waits for the device to stop looks at its status again and again, until it stands still or the
time is up. `Settles` ties the result of an operation to the exchanges it has made : it succeeds if
all of them do, and it fails as the last of them does, unless it gives up on its own account. A wait
for a stop gives up when the time is up, and when the connection is lost (`Op.ends_waitStopFrom`).

The time shrinks by at least the pause between two looks, which a valid configuration does not let
be zero. So stopping and stepping end, and what they ask of the device is bounded
(`stop_and_step_end`).
-/

namespace RemoteDebug

open Wire (Opcode)

/-! ## What exchanges come to -/

/-- Each exchange succeeds. -/
def Smooth (judge : Bytes × Outcome → Except Failure Unit) (x : List (Bytes × Outcome)) : Prop :=
  ∀ y ∈ x, judge y = .ok ()

/-- All exchanges succeed and so does the operation, or all but the last one do and the operation
fails as that one does, or all of them do and the operation `quits` on its own account. -/
def Settles {α : Type} (judge : Bytes × Outcome → Except Failure Unit) (quits : Failure → Prop)
    (x : List (Bytes × Outcome)) : Except Failure α → Prop
  | .ok _ => Smooth judge x
  | .error e => (∃ pre y, x = pre ++ [y] ∧ Smooth judge pre ∧ judge y = .error e) ∨
      Smooth judge x ∧ quits e

section

variable {α β : Type} {judge : Bytes × Outcome → Except Failure Unit} {quits : Failure → Prop}
  {x y : List (Bytes × Outcome)}

theorem smooth_nil : Smooth judge [] := List.forall_mem_nil _

theorem smooth_append : Smooth judge (x ++ y) ↔ Smooth judge x ∧ Smooth judge y :=
  List.forall_mem_append

/-- Exchanges that succeed may come before. -/
theorem Settles.after {r : Except Failure α} (h : Settles judge quits y r)
    (hx : Smooth judge x) : Settles judge quits (x ++ y) r := by
  cases r with
  | ok a => exact smooth_append.mpr ⟨hx, h⟩
  | error e =>
    rcases h with ⟨pre, z, rfl, hpre, hz⟩ | ⟨hy, he⟩
    · exact Or.inl ⟨x ++ pre, z, by simp, smooth_append.mpr ⟨hx, hpre⟩, hz⟩
    · exact Or.inr ⟨smooth_append.mpr ⟨hx, hy⟩, he⟩

theorem Settles.cons {r : Except Failure α} {z : Bytes × Outcome} (h : Settles judge quits y r)
    (hz : judge z = .ok ()) : Settles judge quits (z :: y) r :=
  h.after (x := [z]) (List.forall_mem_singleton.mpr hz)

theorem Settles.mono {quits' : Failure → Prop} {r : Except Failure α} (h : Settles judge quits x r)
    (hq : ∀ {e}, quits e → quits' e) : Settles judge quits' x r := by
  cases r with
  | ok a => exact h
  | error e => exact h.imp_right fun he => ⟨he.1, hq he.2⟩

theorem eq_error_of_map {x : Except Failure α} {f : α → β} {e : Failure}
    (h : x.map f = .error e) : x = .error e := by
  cases x with
  | ok a => cases h
  | error e' =>
    cases h
    rfl

/-- An operation of one exchange comes to what that does. -/
theorem settles_single {r : Except Failure α} {z : Bytes × Outcome}
    (hz : judge z = r.map fun _ => ()) : Settles judge quits [z] r := by
  cases r with
  | ok a => exact List.forall_mem_singleton.mpr hz
  | error e => exact Or.inl ⟨[], z, rfl, smooth_nil, hz⟩

end

/-! ## Waiting for a stop -/

/-- What began with the watch at `w₀` fails with `e` at `w` on its own account : the time is up and
the device does not stand still, or the connection is lost. -/
def Quits (w₀ w : Watch) (s : Session) (e : Failure) : Prop :=
  (e = .timeout Opcode.readStatus s.config.responseTimeout ∧ s.status.stopped = false ∧
    w₀.elapsed + s.config.responseTimeout.toNat ≤ w.elapsed) ∨
  (e = .notConnected ∧ s.isConnected = false) ∨ (e = .connectionClosed ∧ w.Lost s)

theorem Quits.of_lost {w₀ w : Watch} {s : Session} (h : w.Lost s) :
    Quits w₀ w s .connectionClosed :=
  Or.inr (Or.inr ⟨rfl, h⟩)

theorem Quits.of_not_isConnected {w₀ w : Watch} {s : Session} (h : s.isConnected = false) :
    Quits w₀ w s .notConnected :=
  Or.inr (Or.inl ⟨rfl, h⟩)

/-- Time counts from the start as well. -/
theorem Quits.from_start {w₀ w : Watch} {s : Session} {e : Failure} (h : Quits w₀ w s e) :
    Quits .start w s e :=
  h.imp_left fun ⟨he, hs, ht⟩ =>
    ⟨he, hs, Nat.le_trans (Nat.add_le_add_right (Nat.zero_le _) _) ht⟩

/-- How a wait for a stop ends that began with the watch at `w₀`, after the exchanges `x` : it has
asked for the status only, and when it succeeds the device stands still. -/
def WaitEnds (call : Call) (F : Session → Prop) (judge : Bytes × Outcome → Except Failure Unit)
    (x : List (Bytes × Outcome)) (w₀ w : Watch) (r : Except Failure Unit) : Assertion := fun h s =>
  ∃ y, Traced call F (x ++ y) h s ∧ (∀ z ∈ y, z.1 = Op.statusRequest) ∧
    Settles judge (Quits w₀ w s) y r ∧ (r = .ok () → s.status.stopped = true)

/-- How a look at the status ends that a wait for a stop takes with the watch at `w` : the wait is
over with it, or it goes on after one more exchange, and knows how much time that took. -/
def LookEnds (call : Call) (F : Session → Prop) (judge : Bytes × Outcome → Except Failure Unit)
    (x : List (Bytes × Outcome)) (w₀ w v : Watch) : Except Failure Nat → Assertion
  | .error e => WaitEnds call F judge x w₀ v (.error e)
  | .ok t => fun h s => v = w.pass t ∧ ∃ o, judge (Op.statusRequest, o) = .ok () ∧
      Traced call F (x ++ [(Op.statusRequest, o)]) h s

section

variable {call : Call} {F : Session → Prop} {judge : Bytes × Outcome → Except Failure Unit}
  {x : List (Bytes × Outcome)} {w₀ w : Watch} {h : History} {s : Session}

theorem WaitEnds.quit {e : Failure} (hx : Traced call F x h s) (he : Quits w₀ w s e) :
    WaitEnds call F judge x w₀ w (.error e) h s :=
  ⟨[], by simpa using hx, List.forall_mem_nil _, Or.inr ⟨smooth_nil, he⟩, nofun⟩

/-- A look at the status of the device may come before. -/
theorem WaitEnds.after {r : Except Failure Unit} {o : Outcome}
    (h' : WaitEnds call F judge (x ++ [(Op.statusRequest, o)]) w₀ w r h s)
    (ho : judge (Op.statusRequest, o) = .ok ()) : WaitEnds call F judge x w₀ w r h s := by
  obtain ⟨y, hy, hreq, hset, hok⟩ := h'
  refine ⟨(Op.statusRequest, o) :: y, by simpa using hy, by simpa using hreq, ?_, hok⟩
  exact hset.cons ho

namespace Op

theorem ends_look {c : Config} (hF : Lasts F) (hconfig : ∀ {s}, F s → s.config = c)
    (hjudge : ∀ o, judge (statusRequest, o) = (o.status c.responseTimeout).map fun _ => ()) :
    refresh.Ends (some call) (Traced call F x) w (LookEnds call F judge x w₀ w) := by
  have hstable : Stable (Traced call F x) := Traced.stable hF
  refine ends_refresh (fun hx => congrArg Config.responseTimeout (hconfig hx.2))
    (fun hx hlost => .quit hx (.of_lost hlost)) (fun hx => hx.sent _) hstable ?_ ?_
  · intro t o e h s hx ho
    refine ⟨[(statusRequest, o)], hx.ended _ o, by simp, settles_single ?_, nofun⟩
    rw [hjudge, ho]
    rfl
  · intro t o status h s hx ho
    refine ⟨rfl, o, by rw [hjudge, ho]; rfl, ?_⟩
    simpa using (hx.ended statusRequest o).acted (hF.reading status)

theorem ends_waitStopFrom {c : Config} (hc : c.Valid) (spent : Nat) (hF : Lasts F)
    (hconfig : ∀ {s}, F s → s.config = c)
    (hjudge : ∀ o, judge (statusRequest, o) = (o.status c.responseTimeout).map fun _ => ())
    (x : List (Bytes × Outcome)) :
    (waitStopFrom c hc spent).Ends (some call) (Traced call F x) (w₀.pass spent)
      (WaitEnds call F judge x w₀) := by
  fun_induction waitStopFrom c hc spent generalizing x with
  | case1 spent ih =>
    have hstable : Stable (Traced call F x) := Traced.stable hF
    refine ends_session_bind fun s₀ => ?_
    split
    · next hs =>
      refine ends_pure ?_
      rintro h s ⟨hx, rfl⟩
      exact ⟨[], by simpa using hx, List.forall_mem_nil _, smooth_nil, fun _ => hs⟩
    split
    · next hs ht =>
      refine ends_throw ?_
      rintro h s ⟨hx, rfl⟩
      refine .quit hx (Or.inl ?_)
      rw [hconfig hx.2]
      exact ⟨rfl, by simpa using hs, Nat.add_le_add_left ht _⟩
    next hs ht =>
    refine Ends.mono (P := Traced call F x) ?_ (·.1) id
    refine ends_sleep_bind hstable fun pause => ?_
    refine ends_requireLink_bind (fun hx hs => .quit hx (.of_not_isConnected hs)) ?_
    refine Ends.mono (P := Traced call F x) ?_ (·.1) id
    refine ends_acquire_bind hstable (fun hx => .quit hx (.of_lost (Or.inl rfl))) fun t₁ => ?_
    refine ends_bind (ends_releasing (ends_look hF hconfig hjudge)) id fun v t₂ => ?_
    refine ends_of_imp fun hv => ends_of_exists fun o => ends_of_imp fun ho => ?_
    -- The time that the look reports is the time by the watch, so that the next round starts there.
    have hspent : v = w₀.pass (spent + pause.val + t₁ + t₂) := by
      simp only [hv, Watch.pass, Nat.add_assoc]
    rw [hspent]
    exact (ih ht pause t₁ t₂ _).mono id fun hw => hw.after ho

theorem ends_waitStop {c : Config} (hF : Lasts F) (hconfig : ∀ {s}, F s → s.config = c)
    (hjudge : ∀ o, judge (statusRequest, o) = (o.status c.responseTimeout).map fun _ => ())
    (x : List (Bytes × Outcome)) :
    waitStop.Ends (some call) (Traced call F x) w₀ (WaitEnds call F judge x w₀) := by
  refine ends_session_bind fun s₀ => ?_
  intro h s l s' r hp hr
  obtain ⟨hx, rfl⟩ := hp
  obtain rfl := hconfig hx.2
  exact ends_waitStopFrom s.valid 0 hF hconfig hjudge x hx hr

end Op

end

/-! ## The law -/

/-- How many requests with an opcode a call has sent. -/
def asked (call : Call) (op : Opcode) (h : History) : Nat :=
  (sentBy (some call) h).countP fun request => request.head? == some op

/-- Requests with an opcode cost one each, and nothing else costs anything. -/
def priceOf (op : Opcode) : Wait → Nat
  | .reply request => if request.head? == some op then 1 else 0
  | _ => 0

theorem Op.Spends.asked_le {α : Type} {call : Call} {op : Op α} {opcode : Opcode} {n : Nat}
    {s s' : Session} {l : History} {r : Option (Except Failure α)}
    (h : op.Spends s.config (priceOf opcode) n) (hr : Runs (some call) op.run s l s' r) :
    asked call opcode l ≤ n := by
  refine Prog.Spends.countP_le h (fun request hc => ?_) hr rfl
  exact Nat.le_of_eq (if_pos hc).symm

section

variable {call : Call} {s s' : Session} {l : History}

theorem Op.asked_waitStop_le {r : Option (Except Failure Unit)}
    (hr : Runs (some call) waitStop.run s l s' r) :
    asked call Opcode.readStatus l ≤ s.config.looks := by
  refine (spends_waitStop.mono (Nat.le_of_eq ?_)).asked_le hr
  exact Nat.mul_one _

theorem Op.asked_stop_le {r : Option (Except Failure Unit)}
    (hr : Runs (some call) stop.run s l s' r) :
    asked call Opcode.stop l ≤ 1 ∧ asked call Opcode.readStatus l ≤ s.config.looks := by
  refine ⟨spends_stop.asked_le hr, (spends_stop.mono (Nat.le_of_eq ?_)).asked_le hr⟩
  change 0 + s.config.looks * 1 = s.config.looks
  rw [Nat.zero_add, Nat.mul_one]

/-- A step is one request to step, asks for the status as often as a wait for a stop does, and reads
one frame. -/
theorem Op.asked_stepIn_le {r : Option (Except Failure StackFrame)}
    (hr : Runs (some call) stepIn.run s l s' r) :
    asked call Opcode.singleStep l ≤ s.config.maxSteps.toNat ∧
      asked call Opcode.readStackTrace l ≤ s.config.maxSteps.toNat + 1 ∧
      asked call Opcode.readStatus l ≤ s.config.maxSteps.toNat * s.config.looks := by
  refine ⟨(spends_stepIn.mono (Nat.le_of_eq ?_)).asked_le hr,
    (spends_stepIn.mono (Nat.le_of_eq ?_)).asked_le hr,
    (spends_stepIn.mono (Nat.le_of_eq ?_)).asked_le hr⟩
  · change 0 + s.config.maxSteps.toNat * 1 = s.config.maxSteps.toNat
    rw [Nat.zero_add, Nat.mul_one]
  · change 1 + s.config.maxSteps.toNat * 1 = s.config.maxSteps.toNat + 1
    rw [Nat.mul_one, Nat.add_comm]
  · change 0 + s.config.maxSteps.toNat * (0 + s.config.looks * 1) = _
    rw [Nat.zero_add, Nat.zero_add, Nat.mul_one]

end

/-- From every session, whatever the device answers and however long it takes : waiting for a stop,
stopping and stepping wait a bounded number of times before they end. A wait for a stop asks for the
status at most as often as pauses fit into the response timeout, rounded up. It succeeds only if the
device is known to stand still. It fails when the time is up and the device does not stand still, or
as its last look at the status does, or because the connection is lost. So stopping sends one
request to stop at most, and stepping at most one request to step and one for a frame for each step
that is allowed, with one for the frame it starts from. -/
theorem stop_and_step_end (call : Call) (s : Session) :
    let looks := s.config.responseTimeout.toNat ⌈/⌉ s.config.stopPoll.toNat
    let limit := s.config.maxSteps.toNat
    (Op.waitStop.Spends s.config (fun _ => 1) (looks * 3) ∧
      Op.stop.Spends s.config (fun _ => 1) (2 + looks * 3) ∧
      Op.stepIn.Spends s.config (fun _ => 1) (2 + limit * (4 + looks * 3))) ∧
    (∀ l s' r, Runs (some call) Op.waitStop.run s l s' r →
      asked call Opcode.readStatus l ≤ looks) ∧
    (∀ l s' w r, Runs (some call) (Op.waitStop.run.watched .start) s l s' (some (w, r)) →
      match r with
      | .ok () => s'.status.stopped = true
      | .error e =>
        (e = .timeout Opcode.readStatus s.config.responseTimeout ∧ s'.status.stopped = false ∧
          s.config.responseTimeout.toNat ≤ w.elapsed) ∨
        (∃ x o, outcomesIn (some call) l = x ++ [(Op.statusRequest, o)] ∧
          o.status s.config.responseTimeout = .error e) ∨
        (e = .notConnected ∧ s'.isConnected = false) ∨
        (e = .connectionClosed ∧ (w.refused = true ∨ s'.isConnected = false))) ∧
    (∀ l s' r, Runs (some call) Op.stop.run s l s' r →
      asked call Opcode.stop l ≤ 1 ∧ asked call Opcode.readStatus l ≤ looks) ∧
    (∀ l s' r, Runs (some call) Op.stepIn.run s l s' r →
      asked call Opcode.singleStep l ≤ limit ∧ asked call Opcode.readStackTrace l ≤ limit + 1 ∧
      asked call Opcode.readStatus l ≤ limit * looks) := by
  intro looks limit
  refine ⟨⟨Op.spends_waitStop, Op.spends_stop, ?_⟩, fun _ _ _ => Op.asked_waitStop_le, ?_,
    fun _ _ _ => Op.asked_stop_le, fun _ _ _ => Op.asked_stepIn_le⟩
  · refine Op.spends_stepIn.mono (Nat.le_of_eq ?_)
    change 2 + limit * (2 + (looks * 3 + 2)) = 2 + limit * (4 + looks * 3)
    congr 2
    omega
  · intro l s' w r hr
    have hF : Lasts fun s₁ : Session => s₁.config = s.config :=
      ⟨fun _ hs => (Session.config_apply _ _).trans hs,
        fun _ hs => (Session.config_apply _ _).trans hs⟩
    have hends : Op.waitStop.Ends (some call) (Traced call (·.config = s.config) []) .start
        (WaitEnds call (·.config = s.config)
          (fun x => (x.2.status s.config.responseTimeout).map fun _ => ()) [] .start) :=
      Op.ends_waitStop hF id (fun _ => rfl) []
    obtain ⟨y, ⟨hy, hconfig⟩, hreq, hset, hok⟩ := hends (h := []) ⟨rfl, rfl⟩ hr
    cases r with
    | ok a => exact hok rfl
    | error e =>
      rcases hset with ⟨x, ⟨request, o⟩, rfl, -, ho⟩ | ⟨-, he⟩
      · obtain rfl : request = Op.statusRequest := hreq (request, o) (by simp)
        exact Or.inr (Or.inl ⟨x, o, hy, eq_error_of_map ho⟩)
      · rw [Quits, hconfig, Watch.start, Nat.zero_add] at he
        exact he.imp_right Or.inr

/-- A device that goes on running is asked as often as there is time for, and then the time is
up. -/
theorem stop_and_step_end_running :
    let s := ((Session.new {} Config.valid_default).apply .connected).apply .resumed
    let p := Op.waitStop.run.watched .start
    let r := p.replay (some .stop) s [.reply [0, 0, 0], .reply [0, 0, 0]]
    Runs (some .stop) p s r.1 r.2.1
      (some (⟨100, false⟩, .error (.timeout Opcode.readStatus 100))) ∧
    r.2.1.status.stopped = false ∧ asked .stop Opcode.readStatus r.1 = 2 ∧
    asked .stop Opcode.readStatus r.1 ≤
      s.config.responseTimeout.toNat ⌈/⌉ s.config.stopPoll.toNat := by
  intro s p r
  have hrun : Runs (some .stop) p s r.1 r.2.1
      (some (⟨100, false⟩, .error (.timeout Opcode.readStatus 100))) := by
    have hresult : r.2.2 = some (⟨100, false⟩, .error (.timeout Opcode.readStatus 100)) := by
      decide +kernel
    rw [← hresult]
    exact Prog.runs_replay _ _ _ _
  refine ⟨hrun, by decide +kernel, by decide +kernel, ?_⟩
  exact (stop_and_step_end .stop s).2.1 _ _ _ hrun.of_watched

end RemoteDebug
