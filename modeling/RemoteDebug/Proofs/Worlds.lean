import RemoteDebug.Proofs.Permit
import RemoteDebug.Simulation.World

/-!
# The channel in a world

In a world the client and the poll share one channel. Between the calls of the client the channel is
free, or a poll has it, or the connection is gone (`World.AtRest`). A client that was given the
permit is alone (`World.Held`) : no poll waits for a reply, and none can enter. What comes due keeps
the channel at rest (`World.atRest_waitUntil`), a client that asks for the permit holds it when it
is told so (`World.held_waitPermit`), and it still does after an exchange (`World.held_exchange`).
-/

namespace RemoteDebug

/-- The first best is as good as every other. -/
theorem firstBest_key_le {α : Type} (key : α → Nat) {as : List α} {a b : α}
    (h : firstBest (fun later earlier => key later < key earlier) as = some a) (hb : b ∈ as) :
    key a ≤ key b := by
  have hbetter := firstBest_not_better (b := b) (by simp; omega) (by simp; omega) h hb
  simpa using hbetter

theorem Session.link_apply (s : Session) {a : Act} (h₁ : a ≠ .connected) (h₂ : a ≠ .disconnected)
    (h₃ : ∀ cause, a ≠ .lost cause) : (s.apply a).link = s.link := by
  cases a with
  | connected => exact absurd rfl h₁
  | disconnected => exact absurd rfl h₂
  | lost cause => exact absurd rfl (h₃ cause)
  | resuming => rfl
  | resumed => rfl
  | stepping => rfl
  | reading status => rfl
  | cached frames => rfl
  | edited edit => rfl
  | cleared => rfl
  | loaded registry => rfl

theorem Session.link_disconnected (s : Session) : (s.apply .disconnected).link = .absent := by
  simp only [Session.apply]
  split
  · assumption
  · rfl

theorem Session.link_lost (s : Session) (cause : Option Fault) :
    (s.apply (.lost cause)).link ≠ .up := by
  simp only [Session.apply]
  split
  · simp
  · assumption

namespace Channel

/-- The channel that a poll has, with the others who stand in line for it. -/
def polled (line : List Caller) : Channel Caller := ⟨⟨0, [.poll], line, false⟩, some .poll, true⟩

/-- The channel that the client has. -/
def held : Channel Caller := ⟨⟨0, [.client], [], false⟩, none, true⟩

end Channel

namespace World

variable {w : World}

/-- There is no connection. Nobody waits, and nobody is let in. -/
structure Gone (w : World) : Prop where
  link : w.session.link ≠ .up
  closed : w.channel.gate.closed = true
  waiting : w.channel.gate.waiting = []
  pending : w.channel.pending = none
  polling : w.polling = none

/-- The client does not use the channel. -/
inductive AtRest (w : World) : Prop where
  | free (hl : w.session.link = .up) (hc : w.channel = .opened) (hp : w.polling = none)
  | polling {deadline : Nat} (hl : w.session.link = .up) (hc : w.channel = .polled [])
      (hp : w.polling = some deadline)
  | gone (hg : w.Gone)

/-- The client has the permit, and does not wait for a reply. -/
inductive Held (w : World) : Prop where
  | up (hl : w.session.link = .up) (hc : w.channel = .held) (hp : w.polling = none)
  | gone (hg : w.Gone)

/-! ## Steps that leave the channel alone -/

/-- An act that does not change the connection changes the session alone. -/
theorem perform_eq (w : World) {a : Act} (h₁ : a ≠ .connected) (h₂ : a ≠ .disconnected) :
    w.perform a = { w with
      mailbox := (w.session.events a).foldl Mailbox.post w.mailbox
      session := w.session.apply a } := by
  unfold perform
  split
  · exact absurd rfl h₁
  · exact absurd rfl h₂
  · rfl

theorem Gone.congr {w' : World} (h : w.Gone) (hl : w'.session.link = w.session.link)
    (hc : w'.channel = w.channel) (hp : w'.polling = w.polling) : w'.Gone := by
  obtain ⟨h₁, h₂, h₃, h₄, h₅⟩ := h
  rw [← hc] at h₂ h₃ h₄
  exact ⟨hl ▸ h₁, h₂, h₃, h₄, hp.trans h₅⟩

theorem AtRest.congr {w' : World} (h : w.AtRest) (hl : w'.session.link = w.session.link)
    (hc : w'.channel = w.channel) (hp : w'.polling = w.polling) : w'.AtRest := by
  cases h with
  | free hl' hc' hp' => exact .free (hl.trans hl') (hc.trans hc') (hp.trans hp')
  | polling hl' hc' hp' => exact .polling (hl.trans hl') (hc.trans hc') (hp.trans hp')
  | gone hg => exact .gone (hg.congr hl hc hp)

theorem Held.congr {w' : World} (h : w.Held) (hl : w'.session.link = w.session.link)
    (hc : w'.channel = w.channel) (hp : w'.polling = w.polling) : w'.Held := by
  cases h with
  | up hl' hc' hp' => exact .up (hl.trans hl') (hc.trans hc') (hp.trans hp')
  | gone hg => exact .gone (hg.congr hl hc hp)

theorem atRest_perform (h : w.AtRest) {a : Act} (ha : ∀ cause, a ≠ .lost cause) :
    (w.perform a).AtRest := by
  by_cases h₁ : a = .connected
  · subst h₁
    exact .free rfl rfl rfl
  by_cases h₂ : a = .disconnected
  · subst h₂
    have hl : (w.session.apply .disconnected).link ≠ .up := by simp [Session.link_disconnected]
    exact .gone ⟨hl, rfl, rfl, rfl, rfl⟩
  rw [perform_eq w h₁ h₂]
  exact h.congr (w.session.link_apply h₁ h₂ ha) rfl rfl

theorem held_perform (h : w.Held) {a : Act} (ha : a.Allowed true) : (w.perform a).Held := by
  obtain ⟨h₁, h₂⟩ := ha.2 rfl
  rw [perform_eq w h₁ h₂]
  exact h.congr (w.session.link_apply h₁ h₂ ha.1) rfl rfl

/-- However the connection was used, it is gone once it is lost. -/
theorem gone_lose (w : World) (cause : Option Fault) : (w.lose cause).Gone := by
  unfold lose
  dsimp only [Channel.close, Gate.close]
  split <;> exact ⟨Session.link_lost _ cause, rfl, rfl, rfl, rfl⟩

/-! ## Polls -/

/-- The end of a poll changes the session, and gives the permit back. -/
theorem endPoll_eq (w : World) (reply : Option Bytes) : ∃ mailbox session,
    session.link = w.session.link ∧
      w.endPoll reply = { w with polling := none, mailbox, session }.leave .poll := by
  unfold endPoll
  split
  · next status _ => exact ⟨_, w.session.apply (.reading status), rfl, rfl⟩
  · exact ⟨_, _, rfl, rfl⟩

/-- With nobody in line, the permit of a poll that ends is free. -/
theorem leave_poll_of_nil (hc : w.channel = (Channel.polled []).disarm) :
    w.leave .poll = { w with channel := .opened } := by
  unfold leave
  rw [hc]
  rfl

/-- With the client in line, the permit of a poll that ends is the client's. -/
theorem leave_poll_of_client (hc : w.channel = (Channel.polled [.client]).disarm) :
    w.leave .poll = { w with channel := .held, signal := some (.reply []) } := by
  unfold leave
  rw [hc]
  rfl

/-- A poll that is not let in is skipped. -/
theorem poll_eq_of_busy (h : w.channel.tryEnter .poll = (w.channel, false)) :
    w.poll = { w with
      nextPoll := w.nextPoll + ((w.clock - w.nextPoll) / w.period + 1) * w.period } := by
  unfold poll
  dsimp only
  rw [h]

theorem Held.polling (h : w.Held) : w.polling = none := by
  cases h with
  | up _ _ hp => exact hp
  | gone hg => exact hg.polling

theorem Held.pending (h : w.Held) : w.channel.pending = none := by
  cases h with
  | up _ hc _ => rw [hc]; rfl
  | gone hg => exact hg.pending

theorem Gone.tryEnter (h : w.Gone) (i : Caller) : w.channel.tryEnter i = (w.channel, false) := by
  unfold Channel.tryEnter Gate.tryAcquire
  rw [h.closed]

/-- No poll is let in while the client has the permit. -/
theorem Held.tryEnter (h : w.Held) (i : Caller) : w.channel.tryEnter i = (w.channel, false) := by
  cases h with
  | up _ hc _ =>
    rw [hc]
    rfl
  | gone hg => exact hg.tryEnter i

/-- A poll that had no client in line leaves the channel free. -/
theorem atRest_endPoll (hl : w.session.link = .up) (hc : w.channel = (Channel.polled []).disarm)
    (reply : Option Bytes) :
    (w.endPoll reply).AtRest ∧ (w.endPoll reply).polling = none := by
  obtain ⟨mailbox, session, hlink, he⟩ := w.endPoll_eq reply
  rw [he, leave_poll_of_nil]
  · exact ⟨.free (hlink.trans hl) rfl rfl, rfl⟩
  · exact hc

theorem atRest_poll (h : w.AtRest) (hp : w.polling = none) : w.poll.AtRest := by
  cases h with
  | polling _ hc hp' =>
    rw [hp] at hp'
    cases hp'
  | gone hg =>
    rw [poll_eq_of_busy (hg.tryEnter _)]
    exact .gone (hg.congr rfl rfl rfl)
  | free hl hc _ =>
    have henter : w.channel.tryEnter .poll = (⟨⟨0, [.poll], [], false⟩, none, true⟩, true) := by
      rw [hc]
      rfl
    unfold poll
    dsimp only
    rw [henter]
    dsimp only [write]
    split
    · next heq =>
      obtain ⟨rfl, -⟩ := Prod.mk.inj heq
      refine (atRest_endPoll ?_ ?_ _).1
      · exact hl
      · rfl
    · next heq =>
      obtain ⟨rfl, -⟩ := Prod.mk.inj heq
      exact .polling hl rfl rfl
    · next heq =>
      obtain ⟨rfl, -⟩ := Prod.mk.inj heq
      exact .polling hl rfl rfl
    · exact .gone (gone_lose _ _)
    · exact .gone (gone_lose _ _)

/-- A poll ends, and the one that is made up for finds the channel free. -/
theorem atRest_settlePoll (hl : w.session.link = .up)
    (hc : w.channel = (Channel.polled []).disarm) (reply : Option Bytes) :
    (w.settlePoll reply).AtRest := by
  obtain ⟨hrest, hp⟩ := atRest_endPoll hl hc reply
  unfold settlePoll
  dsimp only
  split
  · exact atRest_poll hrest hp
  · exact hrest

/-- A poll ends, and the client that stood in line has the permit. -/
theorem held_settlePoll (hl : w.session.link = .up)
    (hc : w.channel = (Channel.polled [.client]).disarm) (reply : Option Bytes) :
    (w.settlePoll reply).Held ∧ (w.settlePoll reply).signal = some (.reply []) := by
  obtain ⟨mailbox, session, hlink, he⟩ := w.endPoll_eq reply
  have hleave := leave_poll_of_client (w := { w with polling := none, mailbox, session }) hc
  have hheld : (w.endPoll reply).Held := by
    rw [he, hleave]
    exact .up (hlink.trans hl) rfl rfl
  have hsignal : (w.endPoll reply).signal = some (.reply []) := by rw [he, hleave]
  unfold settlePoll
  dsimp only
  split
  · rw [poll_eq_of_busy (hheld.tryEnter _)]
    exact ⟨hheld.congr rfl rfl rfl, hsignal⟩
  · exact ⟨hheld, hsignal⟩

/-! ## What comes due -/

/-- Bytes that arrive when nobody waits are dropped. -/
theorem fire_arrival_of_nobody (hn : w.channel.pending = none) (a : Arrival) :
    w.fire (.arrival a) = { w with transit := w.transit.erase a } := by
  have hdisarm : w.channel.disarm = w.channel := by rw [Channel.disarm, ← hn]
  simp [fire, arrive, Channel.deliver, hdisarm, hn]

theorem fire_arrival_of_poll (hp : w.channel.pending = some .poll) (a : Arrival) :
    w.fire (.arrival a) =
      { w with transit := w.transit.erase a, channel := w.channel.disarm }.settlePoll
        (some (a.bytes.take readSize)) := by
  simp [fire, arrive, Channel.deliver, hp]

theorem fire_arrival_of_client (hc : w.channel.pending = some .client) (a : Arrival) :
    w.fire (.arrival a) =
      { w with
        transit := w.transit.erase a
        channel := w.channel.disarm
        signal := some (.reply (a.bytes.take readSize)) } := by
  simp [fire, arrive, Channel.deliver, hc]

/-- What arrives is for a poll or for nobody. -/
theorem atRest_arrival (h : w.AtRest) (a : Arrival) : (w.fire (.arrival a)).AtRest := by
  cases h with
  | free hl hc hp =>
    rw [fire_arrival_of_nobody (by rw [hc]; rfl)]
    exact .free hl hc hp
  | polling hl hc hp =>
    rw [fire_arrival_of_poll (by rw [hc]; rfl)]
    refine atRest_settlePoll ?_ ?_ _
    · exact hl
    · exact congrArg Channel.disarm hc
  | gone hg =>
    rw [fire_arrival_of_nobody hg.pending]
    exact .gone (hg.congr rfl rfl rfl)

/-- What can come due : bytes on their way, the end of a poll, or a poll on a connection. -/
theorem mem_agenda {x : Nat × Due} (h : x ∈ w.agenda) :
    (∃ a ∈ w.transit, x = (a.due, .arrival a)) ∨
      (∃ deadline, w.polling = some deadline ∧ x = (deadline, .giveUp)) ∨
      (w.polling = none ∧ w.session.link = .up ∧ x = (max w.clock w.nextPoll, .poll)) := by
  unfold agenda at h
  rcases List.mem_append.mp h with h | h
  · obtain ⟨a, ha, rfl⟩ := List.mem_map.mp h
    exact Or.inl ⟨a, ha, rfl⟩
  · cases hp : w.polling with
    | some deadline =>
      simp only [hp, List.mem_singleton] at h
      exact Or.inr (Or.inl ⟨deadline, rfl, h⟩)
    | none =>
      simp only [hp] at h
      split at h
      · next hl => exact Or.inr (Or.inr ⟨rfl, eq_of_beq hl, List.mem_singleton.mp h⟩)
      · cases h

/-- What comes due while the client does not use the channel leaves it so. -/
theorem atRest_fire (h : w.AtRest) {t : Nat} {d : Due} (hd : (t, d) ∈ w.agenda) (clock : Nat) :
    ({ w with clock }.fire d).AtRest := by
  have hclock : { w with clock }.AtRest := h.congr rfl rfl rfl
  rcases mem_agenda hd with ⟨a, -, he⟩ | ⟨deadline, hp, he⟩ | ⟨hp, -, he⟩ <;> cases he
  · exact atRest_arrival hclock a
  · cases h with
    | free _ _ hp' => rw [hp] at hp'; cases hp'
    | gone hg => rw [hg.polling] at hp; cases hp
    | polling hl hc _ =>
      refine atRest_settlePoll ?_ ?_ none
      · exact hl
      · exact congrArg Channel.disarm hc
  · exact atRest_poll hclock hp

/-! ## Waiting -/

theorem nextDue_mem {t : Nat} {d : Due} (h : w.nextDue = some (t, d)) : (t, d) ∈ w.agenda :=
  firstBest_mem h

theorem nextDue_of_mem {x : Nat × Due} (h : x ∈ w.agenda) : ∃ y, w.nextDue = some y := by
  cases hn : w.nextDue with
  | some y => exact ⟨y, rfl⟩
  | none =>
    rw [nextDue, firstBest_eq_none_iff] at hn
    rw [hn] at h
    cases h

/-- Nothing is due before what is due first. -/
theorem nextDue_le {t : Nat} {d : Due} (h : w.nextDue = some (t, d)) {x : Nat × Due}
    (hx : x ∈ w.agenda) : t ≤ x.1 :=
  firstBest_key_le Prod.fst h hx

/-- What is kept when something comes due is kept while waiting. -/
theorem waitUntil_keeps {I : World → Prop} {stop : World → Bool}
    (hfire : ∀ {w t d} (clock : Nat), I w → stop w = false → (t, d) ∈ w.agenda →
      I ({ w with clock }.fire d))
    (hclock : ∀ {w} (clock : Nat), I w → I { w with clock }) (hw : I w) (limit : Nat) :
    I (w.waitUntil stop limit) := by
  have hwaitFor (n : Nat) : ∀ {w}, I w → I (waitFor stop limit n w) := by
    induction n with
    | zero => exact id
    | succ n ih =>
      intro w hw
      unfold waitFor
      split
      · exact hw
      · next hstop =>
        split
        · next due what hnext =>
          split
          · exact ih (hfire _ hw (by simpa using hstop) (nextDue_mem hnext))
          · exact hw
        · exact hw
  unfold waitUntil
  dsimp only
  split
  · exact hwaitFor _ hw
  · exact hclock _ (hwaitFor _ hw)

theorem atRest_waitUntil (h : w.AtRest) (stop : World → Bool) (limit : Nat) :
    (w.waitUntil stop limit).AtRest :=
  waitUntil_keeps (fun clock hw _ hd => atRest_fire hw hd clock)
    (fun _ hw => hw.congr rfl rfl rfl) h limit

theorem waitFor_of_stop {stop : World → Bool} (h : stop w = true) (limit n : Nat) :
    waitFor stop limit n w = w := by
  cases n with
  | zero => rfl
  | succ n => rw [waitFor, if_pos h]

theorem waitFor_step {stop : World → Bool} {limit due n : Nat} {what : Due} (h : stop w = false)
    (hnext : w.nextDue = some (due, what)) (hdue : due ≤ limit) :
    waitFor stop limit (n + 1) w =
      waitFor stop limit n ({ w with clock := max w.clock due }.fire what) := by
  rw [waitFor, hnext]
  simp [h, hdue]

theorem waitUntil_of_stop {stop : World → Bool} (h : stop w = true) (limit : Nat) :
    w.waitUntil stop limit = w := by
  unfold waitUntil
  rw [waitFor_of_stop h, if_pos h]

/-! ## The permit -/

theorem ask_of_free (hc : w.channel = .opened) :
    w.ask = { w with channel := .held, signal := some (.reply []) } := by
  unfold ask
  rw [hc]
  rfl

theorem ask_of_polled (hc : w.channel = .polled []) :
    w.ask = { w with channel := .polled [.client], signal := none } := by
  unfold ask
  rw [hc]
  rfl

theorem Gone.ask_eq (h : w.Gone) : w.ask = { w with signal := some .closed } := by
  unfold ask Channel.enter Gate.acquire
  rw [h.closed]
  rfl

/-- The client asks while a poll waits for its reply. The first thing to come due ends the poll,
and the permit is the client's. -/
theorem waitUntil_of_queued (hl : w.session.link = .up) (hc : w.channel = .polled [.client])
    {deadline : Nat} (hp : w.polling = some deadline) (hs : w.signal = none) :
    ∃ clock what, w.waitUntil (·.signal.isSome) deadline = { w with clock }.fire what ∧
      ({ w with clock }.fire what).Held ∧
      ({ w with clock }.fire what).signal = some (.reply []) := by
  have hgive : (deadline, Due.giveUp) ∈ w.agenda := by simp [agenda, hp]
  obtain ⟨⟨due, what⟩, hnext⟩ := nextDue_of_mem hgive
  have hdue : due ≤ deadline := nextDue_le hnext hgive
  have hfire (clock : Nat) : ({ w with clock }.fire what).Held ∧
      ({ w with clock }.fire what).signal = some (.reply []) := by
    rcases mem_agenda (nextDue_mem hnext) with ⟨a, -, he⟩ | ⟨_, -, he⟩ | ⟨hp', -⟩
    · cases he
      rw [fire_arrival_of_poll (by rw [hc]; rfl)]
      refine held_settlePoll ?_ ?_ _
      · exact hl
      · exact congrArg Channel.disarm hc
    · cases he
      refine held_settlePoll ?_ ?_ none
      · exact hl
      · exact congrArg Channel.disarm hc
    · rw [hp] at hp'
      cases hp'
  have hstop (clock : Nat) : ({ w with clock }.fire what).signal.isSome = true := by
    rw [(hfire clock).2, Option.isSome_some]
  have hwait : waitFor (·.signal.isSome) deadline (w.budget deadline) w =
      { w with clock := max w.clock due }.fire what := by
    obtain ⟨n, hn⟩ : ∃ n, w.budget deadline = n + 1 := ⟨w.budget deadline - 1, by
      unfold budget
      omega⟩
    rw [hn, waitFor_step (by rw [hs, Option.isSome_none]) hnext hdue, waitFor_of_stop (hstop _)]
  refine ⟨max w.clock due, what, ?_, hfire _⟩
  unfold waitUntil
  simp only [hwait, hstop, if_true]

/-- A client that asks for the permit has it exactly if it is told so. -/
theorem held_waitPermit (h : w.AtRest) :
    if w.waitPermit.1 then w.waitPermit.2.Held else w.waitPermit.2.AtRest := by
  unfold waitPermit admission
  cases h with
  | free hl hc hp =>
    rw [ask_of_free hc, waitUntil_of_stop rfl]
    exact .up hl rfl hp
  | polling hl hc hp =>
    have hask := ask_of_polled hc
    obtain ⟨clock, what, he, hheld, hsignal⟩ := waitUntil_of_queued (w := w.ask)
      (by rw [hask, hl]) (by rw [hask]) (by rw [hask, hp]) (by rw [hask])
    rw [hp, Option.getD_some]
    rw [he, hsignal]
    exact hheld.congr rfl rfl rfl
  | gone hg =>
    rw [hg.ask_eq, waitUntil_of_stop rfl]
    exact .gone (hg.congr rfl rfl rfl)

/-- The client gives the permit back. -/
theorem Held.atRest_leave (h : w.Held) : (w.leave .client).AtRest := by
  unfold leave
  cases h with
  | up hl hc hp =>
    rw [hc]
    exact .free hl rfl hp
  | gone hg =>
    unfold Channel.leave Gate.release
    dsimp only
    rw [hg.waiting]
    exact .gone ⟨hg.link, hg.closed, rfl, hg.pending, hg.polling⟩

/-! ## Exchanges -/

/-- The client has the permit and waits for a reply. -/
structure Awaits (w : World) : Prop where
  pending : w.channel.pending = some .client
  held : { w with channel := w.channel.disarm }.Held

theorem Awaits.congr {w' : World} (h : w.Awaits) (hl : w'.session.link = w.session.link)
    (hc : w'.channel = w.channel) (hp : w'.polling = w.polling) : w'.Awaits := by
  refine ⟨by rw [hc, h.pending], h.held.congr hl ?_ hp⟩
  dsimp only
  rw [hc]

/-- A client that waits for a reply is told when the connection is lost. -/
theorem Awaits.signal_lose (h : w.Awaits) (cause : Option Fault) :
    (w.lose cause).signal = some .closed := by
  have hfailed : Caller.client ∈ w.channel.gate.waiting ++ w.channel.pending.toList := by
    simp [h.pending]
  unfold lose
  dsimp only [Channel.close, Gate.close]
  rw [if_pos hfailed]
  rfl

/-- While the client waits for a reply, polls are skipped. -/
theorem Awaits.poll_eq (h : w.Awaits) : w.poll = { w with
    nextPoll := w.nextPoll + ((w.clock - w.nextPoll) / w.period + 1) * w.period } := by
  refine poll_eq_of_busy ?_
  have htry := h.held.tryEnter .poll
  simp only [Channel.tryEnter, Channel.disarm, Prod.mk.injEq, Channel.mk.injEq] at htry ⊢
  exact ⟨by rw [htry.1.1], htry.2⟩

/-- While the client waits for a reply, bytes that arrive are that reply, and nothing else
happens. -/
theorem Awaits.fire_eq (h : w.Awaits) {t : Nat} {d : Due} (hd : (t, d) ∈ w.agenda) (clock : Nat) :
    (∃ a ∈ w.transit, d = .arrival a ∧ { w with clock }.fire d = { w with
        clock
        transit := w.transit.erase a
        channel := w.channel.disarm
        signal := some (.reply (a.bytes.take readSize)) }) ∨
      (d = .poll ∧ t = max w.clock w.nextPoll ∧ { w with clock }.fire d = { w with
        clock
        nextPoll := w.nextPoll + ((clock - w.nextPoll) / w.period + 1) * w.period }) := by
  have hclock : { w with clock }.Awaits := h.congr rfl rfl rfl
  rcases mem_agenda hd with ⟨a, ha, he⟩ | ⟨deadline, hp, -⟩ | ⟨-, -, he⟩
  · cases he
    exact Or.inl ⟨a, ha, rfl, fire_arrival_of_client hclock.pending a⟩
  · rw [h.held.polling] at hp
    cases hp
  · cases he
    exact Or.inr ⟨rfl, rfl, hclock.poll_eq⟩

/-- The client has written a request, and the device has not reacted yet. -/
def written (w : World) (request : Bytes) : World :=
  { w with
    channel := w.channel.arm .client
    signal := none
    device := (w.device.react request).1
    served := if request = [] then w.served
      else w.served ++ [(request, (w.device.react request).2)] }

theorem issue_eq (w : World) (request : Bytes) :
    w.issue request = (w.written request).react (w.device.react request).2 := rfl

theorem Held.awaits_written (h : w.Held) (request : Bytes) : (w.written request).Awaits := by
  refine ⟨rfl, h.congr rfl ?_ rfl⟩
  show { w.channel with pending := none } = w.channel
  rw [← h.pending]

/-- After its request, the client waits for a reply, or it has been told. -/
def InExchange (w : World) : Prop :=
  (w.signal = none ∧ w.Awaits) ∨ (w.signal.isSome = true ∧ w.Held)

theorem Held.inExchange_issue (h : w.Held) (request : Bytes) : (w.issue request).InExchange := by
  have hw := h.awaits_written request
  rw [issue_eq]
  cases (w.device.react request).2 with
  | reply bytes after =>
    cases after with
    | zero => exact Or.inr ⟨rfl, hw.held.congr rfl rfl rfl⟩
    | succ n => exact Or.inl ⟨rfl, hw.congr rfl rfl rfl⟩
  | silence => exact Or.inl ⟨rfl, hw⟩
  | close => exact Or.inr ⟨Option.isSome_of_eq_some (hw.signal_lose _), .gone (gone_lose _ _)⟩
  | reset => exact Or.inr ⟨Option.isSome_of_eq_some (hw.signal_lose _), .gone (gone_lose _ _)⟩

/-- What comes due in the course of an exchange concerns the client alone, and leaves the session
and the device as they are. -/
theorem InExchange.fire (h : w.InExchange) (hs : w.signal.isSome = false) {t : Nat} {d : Due}
    (hd : (t, d) ∈ w.agenda) (clock : Nat) :
    ({ w with clock }.fire d).InExchange ∧ ({ w with clock }.fire d).session = w.session ∧
      ({ w with clock }.fire d).requests = w.requests := by
  rcases h with ⟨hnone, hw⟩ | ⟨hsome, -⟩
  · rcases hw.fire_eq hd clock with ⟨a, -, rfl, he⟩ | ⟨rfl, -, he⟩ <;> rw [he]
    · exact ⟨Or.inr ⟨rfl, hw.held.congr rfl rfl rfl⟩, rfl, rfl⟩
    · exact ⟨Or.inl ⟨hnone, hw.congr rfl rfl rfl⟩, rfl, rfl⟩
  · rw [hs] at hsome
    cases hsome

theorem InExchange.waitUntil (h : w.InExchange) (limit : Nat) :
    (w.waitUntil (·.signal.isSome) limit).InExchange ∧
      (w.waitUntil (·.signal.isSome) limit).session = w.session ∧
      (w.waitUntil (·.signal.isSome) limit).requests = w.requests := by
  refine waitUntil_keeps (I := fun w' =>
    w'.InExchange ∧ w'.session = w.session ∧ w'.requests = w.requests) ?_ ?_ ⟨h, rfl, rfl⟩ limit
  · rintro w' t d clock ⟨hw, hsession, hrequests⟩ hs hd
    obtain ⟨hw', hsession', hrequests'⟩ := hw.fire hs hd clock
    exact ⟨hw', hsession'.trans hsession, hrequests'.trans hrequests⟩
  · rintro w' clock ⟨hw, hsame⟩
    refine ⟨?_, hsame⟩
    exact hw.imp (fun h => ⟨h.1, h.2.congr rfl rfl rfl⟩) fun h => ⟨h.1, h.2.congr rfl rfl rfl⟩

theorem held_exchange (h : w.Held) (request : Bytes) : (w.exchange request).2.Held := by
  have hwait := ((h.inExchange_issue request).waitUntil (w.clock + w.timeout)).1
  unfold exchange outcome
  rcases hwait with ⟨hnone, hw⟩ | ⟨hsome, hw⟩
  · rw [hnone]
    exact hw.held.congr rfl rfl rfl
  · obtain ⟨o, ho⟩ := Option.isSome_iff_exists.mp hsome
    rw [ho]
    exact hw.congr rfl rfl rfl

end World

end RemoteDebug
