import RemoteDebug.Proofs.Worlds

/-!
# The worlds that calls lead to

`World.exchanges` are the exchanges that a program makes in a world. Whatever calls, time and the
device have led to (`World.Reached`), a call makes its exchanges with the permit in hand
(`World.Held`), and everything that is on its way was sent by the device in answer to a request that
was written before (`World.Accounted`).
-/

namespace RemoteDebug

namespace World

variable {w : World}

/-! ## What is on its way -/

/-- When the device received the request, it answered with the bytes. -/
def Answered (w : World) (request bytes : Bytes) : Prop :=
  ∃ after, (request, .reply bytes after) ∈ w.served

/-- Everything on its way was sent in answer to a request that the device has received. -/
def Accounted (w : World) : Prop :=
  ∀ a ∈ w.transit, ∃ request ∈ w.requests, w.Answered request a.bytes

theorem Answered.mem_requests {request bytes : Bytes} (h : w.Answered request bytes) :
    request ∈ w.requests := by
  obtain ⟨after, hmem⟩ := h
  exact List.mem_map_of_mem hmem

theorem Accounted.mono {w' : World} (h : w.Accounted) (ht : w'.transit ⊆ w.transit)
    (hs : w.served ⊆ w'.served) : w'.Accounted := by
  intro a ha
  obtain ⟨request, -, after, hmem⟩ := h a (ht ha)
  have hanswered : w'.Answered request a.bytes := ⟨after, hs hmem⟩
  exact ⟨request, hanswered.mem_requests, hanswered⟩

theorem accounted_of_nil (h : w.transit = []) : w.Accounted := by
  intro a ha
  rw [h] at ha
  cases ha

theorem Accounted.perform (h : w.Accounted) (a : Act) : (w.perform a).Accounted := by
  by_cases h₁ : a = .connected
  · subst h₁
    exact accounted_of_nil rfl
  by_cases h₂ : a = .disconnected
  · subst h₂
    exact accounted_of_nil rfl
  rw [perform_eq w h₁ h₂]
  exact h

theorem accounted_lose (w : World) (cause : Option Fault) : (w.lose cause).Accounted := by
  refine accounted_of_nil ?_
  unfold lose
  dsimp only [Channel.close, Gate.close]
  split <;> rfl

theorem Accounted.leave (h : w.Accounted) (caller : Caller) : (w.leave caller).Accounted := by
  unfold World.leave
  split <;> exact h

theorem Accounted.endPoll (h : w.Accounted) (reply : Option Bytes) :
    (w.endPoll reply).Accounted := by
  obtain ⟨mailbox, session, -, he⟩ := w.endPoll_eq reply
  have hw : { w with polling := none, mailbox, session }.Accounted := h
  rw [he]
  exact hw.leave .poll

theorem write_keeps (w : World) (request : Bytes) : (w.write request).1.transit = w.transit ∧
    (w.write request).1.served =
      if request = [] then w.served else w.served ++ [(request, (w.write request).2)] :=
  ⟨rfl, rfl⟩

/-- A request is written, and what the device answers to it may go on its way. -/
theorem accounted_write {request : Bytes} {w' : World} {reaction : Reaction}
    (hw : w.write request = (w', reaction)) (h : w.Accounted) :
    w'.Accounted ∧ ∀ bytes after due, reaction = .reply bytes after →
      { w' with transit := w'.transit ++ [Arrival.mk due bytes] }.Accounted := by
  obtain ⟨htransit, hserved⟩ := w.write_keeps request
  rw [hw] at htransit hserved
  dsimp only at htransit hserved
  have hw' : w'.Accounted := by
    refine h.mono (htransit ▸ List.Subset.refl _) ?_
    rw [hserved]
    split <;> simp
  refine ⟨hw', fun bytes after due hr a ha => ?_⟩
  rcases List.mem_append.mp ha with ha | ha
  · exact hw' a ha
  · have hne : request ≠ [] := by
      rintro rfl
      rw [hr] at hw
      cases congrArg Prod.snd hw
    rw [List.mem_singleton.mp ha]
    have hanswered : w'.Answered request bytes := ⟨after, by simp [hserved, hne, hr]⟩
    exact ⟨request, hanswered.mem_requests, hanswered⟩

theorem accounted_arrive {bytes : Bytes} {w' : World} {r : Option (Caller × Bytes)}
    (hw : w.arrive bytes = (w', r)) (h : w.Accounted) : w'.Accounted := by
  obtain ⟨rfl, -⟩ := Prod.mk.inj hw
  exact h

theorem Accounted.poll (h : w.Accounted) : w.poll.Accounted := by
  unfold World.poll
  dsimp only
  split
  · exact h
  · split
    · next hw =>
      have hw := (accounted_write hw h).1
      split
      · next ha => exact (accounted_arrive ha hw).endPoll _
      · next ha => exact accounted_arrive ha hw
    · next hw => exact (accounted_write hw h).2 _ _ _ rfl
    · next hw => exact (accounted_write hw h).1
    · exact accounted_lose _ _
    · exact accounted_lose _ _

theorem Accounted.settlePoll (h : w.Accounted) (reply : Option Bytes) :
    (w.settlePoll reply).Accounted := by
  unfold World.settlePoll
  dsimp only
  split
  · exact (h.endPoll reply).poll
  · exact h.endPoll reply

theorem Accounted.fire (h : w.Accounted) (d : Due) : (w.fire d).Accounted := by
  cases d with
  | arrival a =>
    have herase : { w with transit := w.transit.erase a }.Accounted :=
      h.mono List.erase_subset (List.Subset.refl _)
    unfold World.fire
    dsimp only
    split
    · next ha => exact (accounted_arrive ha herase :)
    · next ha => exact (accounted_arrive ha herase).settlePoll _
    · next ha => exact accounted_arrive ha herase
  | giveUp =>
    have hdisarm : { w with channel := w.channel.disarm }.Accounted := h
    exact hdisarm.settlePoll none
  | poll => exact h.poll

theorem Accounted.waitUntil (h : w.Accounted) (stop : World → Bool) (limit : Nat) :
    (w.waitUntil stop limit).Accounted :=
  waitUntil_keeps (fun {w _ d} clock hw _ _ => Accounted.fire (w := { w with clock }) hw d)
    (fun _ hw => hw) h limit

theorem Accounted.waitPermit (h : w.Accounted) : w.waitPermit.2.Accounted := by
  have hask : w.ask.Accounted := by
    unfold ask
    split <;> exact h
  exact hask.waitUntil _ _

theorem Accounted.issue (h : w.Accounted) (request : Bytes) : (w.issue request).Accounted := by
  unfold World.issue
  split
  next hw =>
  obtain ⟨hwritten, hreply⟩ := accounted_write hw h
  unfold World.react
  split
  · split
    · next ha => exact (accounted_arrive ha hwritten :)
    · next ha => exact accounted_arrive ha hwritten
  · exact hreply _ _ _ rfl
  · exact hwritten
  · exact accounted_lose _ _
  · exact accounted_lose _ _

theorem Accounted.exchange (h : w.Accounted) (request : Bytes) :
    (w.exchange request).2.Accounted := by
  have hwait := (h.issue request).waitUntil (·.signal.isSome) (w.clock + w.timeout)
  unfold World.exchange outcome
  split <;> exact hwait

/-! ## Programs and calls -/

/-- The exchanges of a program, each with the world in which it is made. -/
def exchanges {α : Type} : Prog α → World → List (World × Bytes)
  | .done _, _ => []
  | .look k, w => exchanges (k w.session) w
  | .act a k, w => exchanges k (w.perform a)
  | .dial k, w => exchanges (k w.network.dial) w
  | .acquire k, w =>
    let (admitted, w') := w.waitPermit
    exchanges (k (w'.clock - w.clock) admitted) w'
  | .exchange request k, w =>
    let (outcome, w') := w.exchange request
    (w, request) :: exchanges (k (w'.clock - w.clock) outcome) w'
  | .release k, w => exchanges k (w.leave .client)
  | .sleep ms k, w => exchanges (k ms (Nat.le_refl ms)) (w.advance ms)

/-- Two programs in a row run one after the other. -/
theorem run_bind {α β : Type} (w : World) (p : Prog α) (f : α → Prog β) :
    w.run (p.bind f) = (w.run p).2.run (f (w.run p).1) := by
  induction p generalizing w with
  | done a => rfl
  | look k ih => exact ih _ w
  | act a k ih => exact ih _
  | dial k ih => exact ih _ w
  | acquire k ih => exact ih _ _ _
  | exchange request k ih => exact ih _ _ _
  | release k ih => exact ih _
  | sleep ms k ih => exact ih _ _ _

/-- Where the client stands : it has the permit or not, as the flag says, and everything on its way
is accounted for. -/
structure Stands (held : Bool) (w : World) : Prop where
  channel : if held then w.Held else w.AtRest
  accounted : w.Accounted

theorem Stands.perform {held : Bool} (h : w.Stands held) {a : Act} (ha : a.Allowed held) :
    (w.perform a).Stands held := by
  refine ⟨?_, h.accounted.perform a⟩
  cases held with
  | false => exact atRest_perform h.channel ha.1
  | true => exact held_perform h.channel ha

/-- A program that keeps to the permit makes every exchange with the permit, and leaves the client
where it says. -/
theorem stands_run {α : Type} {Q : α → Bool} {p : Prog α} {held : Bool} (hp : p.Bracketed Q held)
    (h : w.Stands held) :
    (w.run p).2.Stands (Q (w.run p).1) ∧ ∀ x ∈ w.exchanges p, x.1.Stands true := by
  induction p generalizing w held with
  | done a =>
    have hq : Q a = held := hp
    rw [run, exchanges, hq]
    exact ⟨h, by simp⟩
  | look k ih =>
    rw [run, exchanges]
    exact ih _ (hp _) h
  | act a k ih =>
    rw [run, exchanges]
    exact ih hp.2 (h.perform hp.1)
  | dial k ih =>
    rw [run, exchanges]
    exact ih _ (hp _) h
  | acquire k ih =>
    obtain ⟨rfl, hp⟩ := hp
    rw [run, exchanges]
    exact ih _ _ (hp _ _) ⟨held_waitPermit h.channel, h.accounted.waitPermit⟩
  | exchange request k ih =>
    obtain ⟨rfl, hp⟩ := hp
    rw [run, exchanges]
    obtain ⟨h₁, h₂⟩ := ih _ _ (hp _ _)
      ⟨held_exchange h.channel request, h.accounted.exchange request⟩
    exact ⟨h₁, List.forall_mem_cons.mpr ⟨h, h₂⟩⟩
  | release k ih =>
    obtain ⟨rfl, hp⟩ := hp
    rw [run, exchanges]
    exact ih hp ⟨Held.atRest_leave h.channel, h.accounted.leave .client⟩
  | sleep ms k ih =>
    obtain ⟨rfl, hp⟩ := hp
    rw [run, exchanges]
    exact ih _ _ (hp _ _) ⟨atRest_waitUntil h.channel _ _, h.accounted.waitUntil _ _⟩

/-- The worlds that calls of the client, the time and the device lead to. -/
inductive Reached : World → Prop where
  | new (config : Config) (valid : config.Valid) (network : Network) (device : Device) :
      Reached (World.new (Session.new config valid) network device)
  /-- The client makes a call. -/
  | call {w : World} (hw : Reached w) (c : Call) : Reached (w.run c.program).2
  /-- The client waits for an event. -/
  | receive {w : World} (hw : Reached w) (ms : Nat) : Reached (w.receive ms).2
  /-- Time passes. -/
  | advance {w : World} (hw : Reached w) (ms : Nat) : Reached (w.advance ms)
  /-- The device changes. -/
  | device {w : World} (hw : Reached w) (device : Device) : Reached { w with device }
  /-- The device sends bytes that nobody asked for. -/
  | sends {w : World} (hw : Reached w) (bytes : Bytes) : Reached (w.deviceSends bytes)
  /-- The device ends the connection. -/
  | ends {w : World} (hw : Reached w) (cause : Option Fault) : Reached (w.deviceEnds cause)

/-- The world after some calls, one after the other. -/
def calling (w : World) (calls : List Call) : World :=
  calls.foldl (fun w c => (w.run c.program).2) w

theorem Reached.calling (hw : w.Reached) (calls : List Call) : (w.calling calls).Reached := by
  induction calls generalizing w with
  | nil => exact hw
  | cons c calls ih => exact ih (hw.call c)

theorem Reached.stands (hw : w.Reached) : w.Stands false := by
  induction hw with
  | new config valid network device =>
    exact ⟨.gone ⟨nofun, rfl, rfl, rfl, rfl⟩, accounted_of_nil rfl⟩
  | call hw c ih => exact (stands_run c.bracketed ih).1
  | receive hw ms ih =>
    exact ⟨(atRest_waitUntil ih.channel _ _).congr rfl rfl rfl, ih.accounted.waitUntil _ _⟩
  | advance hw ms ih => exact ⟨atRest_waitUntil ih.channel _ _, ih.accounted.waitUntil _ _⟩
  | device hw device ih => exact ⟨AtRest.congr ih.channel rfl rfl rfl, ih.accounted⟩
  | sends hw bytes ih =>
    unfold deviceSends
    split
    · exact ⟨atRest_arrival ih.channel _, ih.accounted.fire _⟩
    · exact ih
  | ends hw cause ih =>
    unfold deviceEnds
    split
    · exact ⟨.gone (gone_lose _ _), accounted_lose _ _⟩
    · exact ih

/-- Whatever led to a world, a call makes its exchanges with the permit. -/
theorem Reached.stands_of_mem_exchanges {w₀ : World} (hw : w₀.Reached) {c : Call} {request : Bytes}
    (hx : (w, request) ∈ w₀.exchanges c.program) : w.Stands true :=
  (stands_run c.bracketed hw.stands).2 _ hx

end World

end RemoteDebug
