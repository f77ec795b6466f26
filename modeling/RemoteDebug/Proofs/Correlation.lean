import RemoteDebug.Proofs.Reached

/-!
# Whose reply it is

Replies name no request. A client that waits takes the first bytes to arrive, and these may have
been sent in answer to an earlier request that it has given up on. `World.overtaking` are the bytes
that come in before the answer to a request, if there are any. An exchange ends with these, and it
ends with what the device does with the request if there are none (`reply_own_unless_overtaken`).

So a late reply to a request to add a breakpoint acknowledges the next such request
(`late_reply_acknowledges_next`).
-/

namespace RemoteDebug

/-! ## The first of what is due -/

theorem firstBest_map {α β : Type} (f : α → β) (better : β → β → Bool) (as : List α) :
    firstBest better (as.map f) = (firstBest (fun x y => better (f x) (f y)) as).map f := by
  induction as with
  | nil => rfl
  | cons a as ih =>
    rw [List.map_cons, firstBest, firstBest, ih]
    cases firstBest (fun x y => better (f x) (f y)) as with
    | none => rfl
    | some b =>
      simp only [Option.map_some]
      split <;> rfl

/-- The first best of two lists in a row is that of the first, unless the second has a better
one. -/
theorem firstBest_append {α : Type} (key : α → Nat) (as bs : List α) :
    firstBest (fun later earlier => key later < key earlier) (as ++ bs) =
      match firstBest (fun later earlier => key later < key earlier) as,
        firstBest (fun later earlier => key later < key earlier) bs with
      | none, b => b
      | some a, none => some a
      | some a, some b => if key b < key a then some b else some a := by
  induction as with
  | nil => rfl
  | cons a as ih =>
    rw [List.cons_append, firstBest, firstBest, ih]
    cases firstBest (fun later earlier => key later < key earlier) as with
    | none => cases firstBest (fun later earlier => key later < key earlier) bs <;> simp
    | some a' =>
      cases firstBest (fun later earlier => key later < key earlier) bs with
      | none => by_cases h : key a' < key a <;> simp [h]
      | some b =>
        by_cases h₁ : key b < key a' <;> by_cases h₂ : key a' < key a <;>
          by_cases h₃ : key b < key a <;> simp [h₁, h₂, h₃] <;> omega

/-- How an exchange ends that the device reacts to, if nothing else is on its way. -/
def Reaction.outcome (timeout : Nat) : Reaction → Outcome
  | .reply bytes after =>
    if after ≤ timeout then .reply (bytes.take World.readSize) else .silence
  | .silence => .silence
  | .close => .closed
  | .reset => .closed

namespace World

variable {w : World}

/-- The bytes that come in first of those on their way, if they do by a time. -/
def dueBy (w : World) (limit : Nat) : Option Arrival :=
  (firstBest (fun later earlier => later.due < earlier.due) w.transit).filter (·.due ≤ limit)

/-- The bytes on their way that come in before what the device answers to a request, and before the
client gives up. -/
def overtaking (w : World) (request : Bytes) : Option Arrival :=
  match (w.device.react request).2 with
  | .reply _ 0 => none
  | .reply _ after => w.dueBy (w.clock + min after w.timeout)
  | .silence => w.dueBy (w.clock + w.timeout)
  | .close => none
  | .reset => none

/-! ## Waiting for a reply -/

theorem period_pos (w : World) : 0 < w.period := by
  have hvalid := (Config.valid_iff.mp w.session.valid).2.1
  refine Nat.pos_of_ne_zero fun h => hvalid ?_
  exact UInt64.toNat_inj.mp (h.trans UInt64.toNat_zero.symm)

/-- Apart from bytes on their way, what can come due is no bytes. -/
theorem agenda_eq (w : World) : ∃ others, (∀ x ∈ others, ∀ a, x.2 ≠ .arrival a) ∧
    w.agenda = w.transit.map (fun a => (a.due, Due.arrival a)) ++ others := by
  refine ⟨_, ?_, rfl⟩
  intro x hx a
  split at hx
  · rw [List.mem_singleton.mp hx]
    nofun
  · split at hx
    · rw [List.mem_singleton.mp hx]
      nofun
    · cases hx

/-- Bytes that are due first are the first of those on their way. -/
theorem first_of_nextDue {t : Nat} {a : Arrival} (h : w.nextDue = some (t, .arrival a)) :
    firstBest (fun later earlier => later.due < earlier.due) w.transit = some a ∧ t = a.due := by
  obtain ⟨others, hothers, hagenda⟩ := w.agenda_eq
  have hno {x : Nat × Due} (hx : firstBest (fun later earlier => later.1 < earlier.1) others =
      some x) : x ≠ (t, .arrival a) := by
    rintro rfl
    exact hothers _ (firstBest_mem hx) a rfl
  rw [nextDue, hagenda, firstBest_append Prod.fst, firstBest_map] at h
  dsimp only at h
  cases hfirst : firstBest (fun later earlier => later.due < earlier.due) w.transit with
  | none =>
    rw [hfirst] at h
    exact absurd rfl (hno h)
  | some b =>
    rw [hfirst] at h
    have hb (he : some (b.due, Due.arrival b) = some (t, Due.arrival a)) :
        some b = some a ∧ t = a.due := by
      cases he
      exact ⟨rfl, rfl⟩
    cases hx : firstBest (fun later earlier => later.1 < earlier.1) others with
    | none =>
      rw [hx] at h
      exact hb h
    | some x =>
      simp only [hx, Option.map_some] at h
      split at h
      · exact absurd (Option.some.inj h) (hno hx)
      · exact hb h

theorem dueBy_eq_some {limit : Nat} {a : Arrival}
    (h : firstBest (fun later earlier => later.due < earlier.due) w.transit = some a)
    (ha : a.due ≤ limit) : w.dueBy limit = some a := by
  simp [dueBy, h, ha]

/-- If nothing is due by a time, nothing on its way is. -/
theorem dueBy_eq_none {limit : Nat} (h : ∀ x ∈ w.agenda, limit < x.1) : w.dueBy limit = none := by
  rw [dueBy, Option.filter_eq_none_iff]
  intro a ha
  have hmem : (a.due, Due.arrival a) ∈ w.agenda := by
    unfold agenda
    exact List.mem_append_left _ (List.mem_map_of_mem (firstBest_mem ha))
  simpa using h _ hmem

/-- Bytes that are sent last come in first if nothing else does before them. -/
theorem dueBy_snoc {w' : World} {last : Arrival} (h : w'.transit = w.transit ++ [last])
    (limit : Nat) : w'.dueBy limit = match w.dueBy (min last.due limit) with
      | some a => some a
      | none => if last.due ≤ limit then some last else none := by
  have hfilter (a : Arrival) (t : Nat) :
      (some a).filter (·.due ≤ t) = if a.due ≤ t then some a else none := by simp [Option.filter]
  unfold dueBy
  rw [h, firstBest_append Arrival.due]
  cases firstBest (fun later earlier => later.due < earlier.due) w.transit with
  | none => exact hfilter last limit
  | some a =>
    simp only [firstBest, hfilter]
    by_cases hlast : last.due < a.due
    · have hfirst : ¬a.due ≤ min last.due limit := by omega
      rw [if_pos hlast, if_neg hfirst, hfilter]
    · rw [if_neg hlast, hfilter]
      by_cases ha : a.due ≤ limit
      · have hfirst : a.due ≤ min last.due limit := by omega
        rw [if_pos ha, if_pos hfirst]
      · have hfirst : ¬a.due ≤ min last.due limit := by omega
        have hlate : ¬last.due ≤ limit := by omega
        rw [if_neg ha, if_neg hfirst, if_neg hlate]

/-- A client that waits is told of the first bytes to arrive in time. -/
theorem Awaits.signal_waitFor {limit n : Nat} (h : w.Awaits) (hs : w.signal = none)
    (hn : limit + 1 - max w.clock w.nextPoll < n) :
    (waitFor (·.signal.isSome) limit n w).signal =
      (w.dueBy limit).map fun a => .reply (a.bytes.take readSize) := by
  induction n generalizing w with
  | zero => omega
  | succ n ih =>
    have hstop : w.signal.isSome = false := by rw [hs, Option.isSome_none]
    cases hnext : w.nextDue with
    | none =>
      have hagenda : w.agenda = [] := firstBest_eq_none_iff.mp hnext
      rw [waitFor, hnext, dueBy_eq_none (by simp [hagenda])]
      simp [hs]
    | some x =>
      obtain ⟨due, what⟩ := x
      by_cases hdue : due ≤ limit
      · rw [waitFor_step hstop hnext hdue]
        rcases h.fire_eq (nextDue_mem hnext) (max w.clock due) with
          ⟨a, ha, rfl, he⟩ | ⟨rfl, rfl, he⟩
        · obtain ⟨hfirst, rfl⟩ := first_of_nextDue hnext
          rw [he, waitFor_of_stop rfl, dueBy_eq_some hfirst hdue]
          rfl
        · -- A poll is skipped, and the next one is due later than this one was.
          have hlater := Nat.lt_mul_div_succ
            (max w.clock (max w.clock w.nextPoll) - w.nextPoll) w.period_pos
          rw [Nat.mul_comm] at hlater
          rw [he]
          refine ih (h.congr rfl rfl rfl) hs ?_
          dsimp only
          omega
      · have hlate : ∀ x ∈ w.agenda, limit < x.1 := by
          intro x hx
          have := nextDue_le hnext hx
          omega
        rw [waitFor, hnext, dueBy_eq_none hlate]
        simp [hs, hdue]

theorem Awaits.signal_waitUntil (h : w.Awaits) (hs : w.signal = none) {limit : Nat} :
    (w.waitUntil (·.signal.isSome) limit).signal =
      (w.dueBy limit).map fun a => .reply (a.bytes.take readSize) := by
  have hn : limit + 1 - max w.clock w.nextPoll < w.budget limit := by
    unfold budget
    omega
  rw [← h.signal_waitFor hs hn]
  unfold waitUntil
  dsimp only
  split <;> rfl

/-! ## Exchanges -/

theorem fst_outcome (w : World) : w.outcome.1 = w.signal.getD .silence := by
  unfold outcome
  split <;> simp [*]

/-- An exchange ends with what overtakes the answer of the device, or with that answer. -/
theorem Held.fst_exchange (h : w.Held) (request : Bytes) :
    (w.exchange request).1 = match w.overtaking request with
      | some a => .reply (a.bytes.take readSize)
      | none => (w.device.react request).2.outcome w.timeout := by
  have hw := h.awaits_written request
  have htold {o : Outcome} (hs : (w.issue request).signal = some o) :
      (w.exchange request).1 = o := by
    rw [exchange, waitUntil_of_stop (by rw [hs, Option.isSome_some]), fst_outcome, hs,
      Option.getD_some]
  have hwaits (ha : (w.issue request).Awaits) (hs : (w.issue request).signal = none) :
      (w.exchange request).1 = match (w.issue request).dueBy (w.clock + w.timeout) with
        | some a => .reply (a.bytes.take readSize)
        | none => .silence := by
    rw [exchange, fst_outcome, ha.signal_waitUntil hs]
    cases (w.issue request).dueBy (w.clock + w.timeout) <;> rfl
  rw [issue_eq] at htold hwaits
  cases hr : (w.device.react request).2 with
  | reply bytes after =>
    rw [hr] at htold hwaits
    cases after with
    | zero =>
      rw [overtaking, hr]
      exact htold rfl
    | succ n =>
      have hover : w.overtaking request = w.dueBy (w.clock + min (n + 1) w.timeout) := by
        simp [overtaking, hr]
      have hsent : ((w.written request).react (.reply bytes (n + 1))).transit =
          w.transit ++ [Arrival.mk (w.clock + (n + 1)) bytes] := rfl
      rw [hwaits (hw.congr rfl rfl rfl) rfl, dueBy_snoc hsent, Nat.add_min_add_left, ← hover,
        Reaction.outcome]
      cases w.overtaking request with
      | some a => rfl
      | none =>
        by_cases hn : n + 1 ≤ w.timeout
        · simp [hn]
        · simp [hn]
  | silence =>
    rw [hr] at hwaits
    rw [overtaking, hr]
    exact hwaits hw rfl
  | close =>
    rw [hr] at htold
    rw [overtaking, hr]
    exact htold (hw.signal_lose none)
  | reset =>
    rw [hr] at htold
    rw [overtaking, hr]
    exact htold (hw.signal_lose _)

/-- What overtakes an answer was on its way before. -/
theorem mem_transit_of_overtaking {request : Bytes} {a : Arrival}
    (h : w.overtaking request = some a) : a ∈ w.transit := by
  have hdue {limit : Nat} (hd : w.dueBy limit = some a) : a ∈ w.transit :=
    firstBest_mem (Option.filter_eq_some_iff.mp hd).1
  unfold overtaking at h
  split at h
  · cases h
  · exact hdue h
  · exact hdue h
  · cases h
  · cases h

end World

/-- Whatever has led to a world, and whatever the device does : an exchange of a call ends with what
the device does with its request, unless bytes that are on their way already come in before. Then
it ends with these, and they were sent in answer to an earlier request. -/
theorem reply_own_unless_overtaken {w₀ w : World} (hw : w₀.Reached) {c : Call} {request : Bytes}
    (hx : (w, request) ∈ w₀.exchanges c.program) :
    (w.overtaking request = none →
      (w.exchange request).1 = (w.device.react request).2.outcome w.timeout) ∧
    ∀ a, w.overtaking request = some a →
      (w.exchange request).1 = .reply (a.bytes.take World.readSize) ∧
        ∃ earlier ∈ w.requests, w.Answered earlier a.bytes := by
  have hs := hw.stands_of_mem_exchanges hx
  have hexchange := World.Held.fst_exchange hs.channel request
  refine ⟨fun hnone => ?_, fun a ha => ⟨?_, ?_⟩⟩
  · rw [hexchange, hnone]
  · rw [hexchange, ha]
  · exact hs.accounted a (World.mem_transit_of_overtaking ha)

/-- A session that has given up on its first breakpoint. The device acknowledges it ten milliseconds
too late, and ignores the next one. -/
def World.tardy : World :=
  let config : Config := { responseTimeout := 20, statusPoll := 1000000 }
  let device : Device := { script := [(Wire.Opcode.addBreakpoint, [.code 0 30, .silent])] }
  let calls : List Call := [.load (.twoLines 0), .connect, .setBreakpoints [5] "A.java"]
  calls.foldl (fun w c => (w.run c.program).2)
    (World.new (Session.new config (by decide)) .reachable device)

theorem World.reached_tardy : World.tardy.Reached :=
  (((Reached.new _ _ _ _).call _).call _).call _

/-- The exchange of a second breakpoint ends with the late reply to the request for the first. -/
theorem reply_own_unless_overtaken_tardy :
    let call := Call.setBreakpoints [6] "A.java"
    ∃ w request, (w, request) ∈ World.tardy.exchanges call.program ∧
      w.overtaking request = some ⟨30, [2, 0]⟩ ∧ (w.exchange request).1 = .reply [2, 0] ∧
      ∃ earlier ∈ w.requests, w.Answered earlier [2, 0] := by
  intro call
  have hover : (World.tardy.exchanges call.program).map (fun x => x.1.overtaking x.2) =
      [some ⟨30, [2, 0]⟩] := by decide +kernel
  obtain ⟨⟨w, request⟩, hx, ha⟩ := List.mem_map.mp (hover ▸ List.mem_singleton_self _)
  exact ⟨w, request, hx, ha, (reply_own_unless_overtaken World.reached_tardy hx).2 _ ha⟩

/-- The reply to a request that timed out acknowledges the next one. The device ignores that one,
and the session counts its breakpoint as set. -/
theorem late_reply_acknowledges_next :
    let call := Call.setBreakpoints [6] "A.java"
    World.tardy.Reached ∧ World.tardy.session.breakpoints = [] ∧
      (World.tardy.exchanges call.program).map
          (fun x => ((x.1.device.react x.2).2, (x.1.exchange x.2).1)) =
        [(.silence, .reply [2, 0])] ∧
      (Outcome.reply [2, 0]).accepted Wire.Opcode.addBreakpoint = true ∧
      (World.tardy.run call.program).2.session.breakpoints.map (·.line) = [6] := by
  refine ⟨World.reached_tardy, ?_, ?_, ?_, ?_⟩
  · decide +kernel
  · decide +kernel
  · decide
  · decide +kernel

end RemoteDebug
