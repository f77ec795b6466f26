import RemoteDebug.Proofs.Reached

/-!
# What a world does is a run

`Runs` knows no clock, no device and no channel. Each wait ends in any way, and the background does
what it likes. A world decides all that. What a program does in a world is one of its runs, with the
requests that the device receives and the outcomes that the exchanges have there
(`World.exists_runs`). So runs explain every world that calls lead to (`World.Reached.explained`),
and a law about all runs is a law about these worlds.
-/

namespace RemoteDebug

/-! ## What a history shows -/

/-- The requests that the device receives in the course of a history. An empty one is nothing to
receive. -/
def requestsIn (h : History) : List Bytes :=
  h.filterMap fun m => match m.what with
    | .sent request => if request = [] then none else some request
    | _ => none

/-- The outcomes of the exchanges of a call, each with its request. -/
def outcomesIn (c : Option Call) (h : History) : List (Bytes × Outcome) :=
  h.filterMap fun m => match m.what with
    | .ended request o => if m.call = c then some (request, o) else none
    | _ => none

@[simp]
theorem requestsIn_append (h l : History) : requestsIn (h ++ l) = requestsIn h ++ requestsIn l :=
  List.filterMap_append

@[simp]
theorem outcomesIn_append (c : Option Call) (h l : History) :
    outcomesIn c (h ++ l) = outcomesIn c h ++ outcomesIn c l :=
  List.filterMap_append

theorem outcomesIn_ended (c : Option Call) (s : Session) (request : Bytes) (o : Outcome)
    (l : History) :
    outcomesIn c (⟨c, s, .ended request o⟩ :: l) = (request, o) :: outcomesIn c l := by
  simp [outcomesIn]

theorem Idle.trans {s s₁ s' : Session} {b b' : History} (h : Idle s b s₁) (h' : Idle s₁ b' s') :
    Idle s (b ++ b') s' := by
  induction h with
  | nil => exact h'
  | cons hstirs _ ih =>
    rw [List.append_assoc]
    exact .cons hstirs (ih h')

theorem Stirs.idle {s s' : Session} {l : History} (h : Stirs s l s') : Idle s l s' := by
  simpa using Idle.cons h (.nil s')

/-- The background makes no exchange of a call. -/
theorem Idle.outcomesIn_eq_nil {s s' : Session} {b : History} (h : Idle s b s') (c : Call) :
    outcomesIn (some c) b = [] := by
  induction h with
  | nil => rfl
  | cons hstirs _ ih =>
    rw [outcomesIn_append, ih]
    cases hstirs <;> rfl

namespace World

variable {w : World}

/-! ## The background -/

/-- From one world to the other, the background goes on, and the device receives the requests of
polls. -/
def Drifts (w w' : World) : Prop :=
  ∃ b, Idle w.session b w'.session ∧ w'.requests = w.requests ++ requestsIn b

theorem Drifts.of_eq {w' : World} (hs : w'.session = w.session) (hr : w'.requests = w.requests) :
    w.Drifts w' := by
  refine ⟨[], ?_, ?_⟩
  · rw [hs]
    exact .nil _
  · rw [hr]
    exact (List.append_nil _).symm

theorem Drifts.congr {w₁ w' : World} (h : w₁.Drifts w') (hs : w₁.session = w.session)
    (hr : w₁.requests = w.requests) : w.Drifts w' := by
  unfold Drifts at h
  rwa [hs, hr] at h

theorem Drifts.trans {w₁ w₂ : World} (h₁ : w.Drifts w₁) (h₂ : w₁.Drifts w₂) : w.Drifts w₂ := by
  obtain ⟨b₁, hb₁, hr₁⟩ := h₁
  obtain ⟨b₂, hb₂, hr₂⟩ := h₂
  refine ⟨b₁ ++ b₂, hb₁.trans hb₂, ?_⟩
  rw [hr₂, hr₁, requestsIn_append, List.append_assoc]

theorem drifts_lose (w : World) (cause : Option Fault) : w.Drifts (w.lose cause) := by
  have hloses : Idle w.session _ (w.session.apply (.lost cause)) := (Stirs.loses _ cause).idle
  unfold lose
  dsimp only
  split <;> exact ⟨_, hloses, (List.append_nil _).symm⟩

theorem perform_keeps (w : World) (a : Act) :
    (w.perform a).session = w.session.apply a ∧ (w.perform a).requests = w.requests := by
  unfold perform
  split <;> exact ⟨rfl, rfl⟩

theorem leave_keeps (w : World) (caller : Caller) :
    (w.leave caller).session = w.session ∧ (w.leave caller).requests = w.requests := by
  unfold leave
  split <;> exact ⟨rfl, rfl⟩

theorem drifts_leave (w : World) (caller : Caller) : w.Drifts (w.leave caller) :=
  .of_eq (w.leave_keeps caller).1 (w.leave_keeps caller).2

/-- A poll ends with a status or without one. -/
theorem drifts_endPoll (hl : w.session.link = .up) (reply : Option Bytes) :
    w.Drifts (w.endPoll reply) := by
  unfold endPoll
  dsimp only
  split
  · next status hstatus =>
    obtain ⟨bytes, -, hb⟩ := Option.map_eq_some_iff.mp hstatus
    have hlink : w.session.link ≠ .absent := by simp [hl]
    have hreads : w.Drifts ({ w with polling := none }.perform (.reading status)) :=
      ⟨_, (Stirs.reads hlink hb).idle, (List.append_nil _).symm⟩
    exact hreads.trans (drifts_leave _ _)
  · exact (drifts_leave _ _).congr rfl rfl

/-- A poll asks for the status. -/
theorem drifts_write {w' : World} {reaction : Reaction}
    (hw : w.write Op.statusRequest = (w', reaction)) (hl : w.session.link = .up) :
    w.Drifts w' ∧ w'.session.link = .up := by
  obtain rfl : (w.write Op.statusRequest).1 = w' := congrArg Prod.fst hw
  have hlink : w.session.link ≠ .absent := by simp [hl]
  have hrequests : (w.write Op.statusRequest).1.requests = w.requests ++ [Op.statusRequest] := by
    rw [requests, (w.write_keeps _).2, if_neg (by decide), List.map_append]
    rfl
  exact ⟨⟨[⟨none, w.session, .sent Op.statusRequest⟩], (Stirs.asks hlink).idle, hrequests⟩, hl⟩

theorem drifts_poll (hl : w.session.link = .up) : w.Drifts w.poll := by
  unfold poll
  dsimp only
  split
  · exact .of_eq rfl rfl
  · split
    · next hw =>
      have hd : w.Drifts _ := (drifts_write hw hl).1
      have hl' := (drifts_write hw hl).2
      refine hd.trans ?_
      split
      · next ha =>
        obtain ⟨rfl, -⟩ := Prod.mk.inj ha
        refine (drifts_endPoll ?_ _).congr rfl rfl
        exact hl'
      · next ha =>
        obtain ⟨rfl, -⟩ := Prod.mk.inj ha
        exact .of_eq rfl rfl
    · next hw => exact ((drifts_write hw hl).1.trans (.of_eq rfl rfl) :)
    · next hw => exact ((drifts_write hw hl).1.trans (.of_eq rfl rfl) :)
    · next hw => exact ((drifts_write hw hl).1.trans (drifts_lose _ _) :)
    · next hw => exact ((drifts_write hw hl).1.trans (drifts_lose _ _) :)

theorem drifts_settlePoll (hl : w.session.link = .up) (reply : Option Bytes) :
    w.Drifts (w.settlePoll reply) := by
  have hend := drifts_endPoll hl reply
  unfold settlePoll
  dsimp only
  split
  · next hp => exact hend.trans (drifts_poll (eq_of_beq hp.1))
  · exact hend

theorem drifts_fire (hl : w.session.link = .up) (d : Due) : w.Drifts (w.fire d) := by
  cases d with
  | arrival a =>
    cases hp : w.channel.pending with
    | none =>
      rw [fire_arrival_of_nobody hp]
      exact .of_eq rfl rfl
    | some caller =>
      cases caller with
      | client =>
        rw [fire_arrival_of_client hp]
        exact .of_eq rfl rfl
      | poll =>
        rw [fire_arrival_of_poll hp]
        refine (drifts_settlePoll ?_ _).congr rfl rfl
        exact hl
  | giveUp =>
    refine (drifts_settlePoll ?_ none).congr rfl rfl
    exact hl
  | poll => exact drifts_poll hl

/-- Without a connection nothing happens. -/
theorem AtRest.drifts_fire (h : w.AtRest) {t : Nat} {d : Due} (hd : (t, d) ∈ w.agenda)
    (clock : Nat) : w.Drifts ({ w with clock }.fire d) := by
  have hup (hl : w.session.link = .up) : w.Drifts ({ w with clock }.fire d) := by
    refine (World.drifts_fire ?_ d).congr rfl rfl
    exact hl
  cases h with
  | free hl _ _ => exact hup hl
  | polling hl _ _ => exact hup hl
  | gone hg =>
    rcases mem_agenda hd with ⟨a, -, he⟩ | ⟨deadline, hp, -⟩ | ⟨-, hl, -⟩
    · cases he
      rw [fire_arrival_of_nobody (w := { w with clock }) hg.pending]
      exact .of_eq rfl rfl
    · rw [hg.polling] at hp
      cases hp
    · exact absurd hl hg.link

theorem AtRest.drifts_waitUntil (h : w.AtRest) (stop : World → Bool) (limit : Nat) :
    w.Drifts (w.waitUntil stop limit) := by
  have hwait : (w.waitUntil stop limit).AtRest ∧ w.Drifts (w.waitUntil stop limit) := by
    refine waitUntil_keeps (I := fun w' => w'.AtRest ∧ w.Drifts w') ?_ ?_ ⟨h, .of_eq rfl rfl⟩ limit
    · intro w' t d clock hw _ hd
      exact ⟨atRest_fire hw.1 hd clock, hw.2.trans (hw.1.drifts_fire hd clock)⟩
    · intro w' clock hw
      exact ⟨hw.1.congr rfl rfl rfl, hw.2⟩
  exact hwait.2

/-! ## The client -/

/-- A client that stands in line waits for the end of a poll. -/
theorem AtRest.drifts_waitPermit (h : w.AtRest) : w.Drifts w.waitPermit.2 := by
  unfold waitPermit admission
  cases h with
  | free hl hc hp =>
    rw [ask_of_free hc, waitUntil_of_stop rfl]
    exact .of_eq rfl rfl
  | polling hl hc hp =>
    have hask := ask_of_polled hc
    obtain ⟨clock, what, he, -⟩ := waitUntil_of_queued (w := w.ask)
      (by rw [hask, hl]) (by rw [hask]) (by rw [hask, hp]) (by rw [hask])
    have hd : w.Drifts w.ask := by
      rw [hask]
      exact .of_eq rfl rfl
    rw [hp, Option.getD_some, he]
    refine hd.trans ((World.drifts_fire ?_ what).congr rfl rfl)
    rw [hask]
    exact hl
  | gone hg =>
    rw [hg.ask_eq, waitUntil_of_stop rfl]
    exact .of_eq rfl rfl

theorem requests_written (w : World) (request : Bytes) (c : Option Call) :
    (w.written request).requests = w.requests ++ requestsIn [⟨c, w.session, .sent request⟩] := by
  by_cases h : request = [] <;> simp [requests, written, requestsIn, h]

/-- After a request was written, the connection may be lost, and nothing else happens. -/
theorem Held.drifts_exchange (h : w.Held) (request : Bytes) :
    (w.written request).Drifts (w.exchange request).2 := by
  have hissue : (w.written request).Drifts (w.issue request) := by
    rw [issue_eq]
    cases (w.device.react request).2 with
    | reply bytes after => cases after <;> exact .of_eq rfl rfl
    | silence => exact .of_eq rfl rfl
    | close => exact drifts_lose _ _
    | reset => exact drifts_lose _ _
  obtain ⟨-, hs, hr⟩ := (h.inExchange_issue request).waitUntil (w.clock + w.timeout)
  have hwait := hissue.trans (.of_eq hs hr)
  unfold exchange outcome
  split <;> exact hwait

/-! ## Programs and calls -/

/-- What a program that keeps to the permit does in a world is one of its runs. The device receives
the requests of the run, and the exchanges end in it as they do in the world. -/
theorem exists_runs {α : Type} {Q : α → Bool} {p : Prog α} {held : Bool}
    (hp : p.Bracketed Q held) (h : w.Stands held) (c : Call) :
    ∃ l, Runs (some c) p w.session l (w.run p).2.session (some (w.run p).1) ∧
      (w.run p).2.requests = w.requests ++ requestsIn l ∧
      outcomesIn (some c) l = (w.exchanges p).map fun x => (x.2, (x.1.exchange x.2).1) := by
  induction p generalizing w held with
  | done a => exact ⟨[], .done a _, (List.append_nil _).symm, rfl⟩
  | look k ih =>
    obtain ⟨l, hl, hr, ho⟩ := ih _ (hp _) h
    exact ⟨l, .look hl, hr, ho⟩
  | act a k ih =>
    obtain ⟨l, hl, hr, ho⟩ := ih hp.2 (h.perform hp.1)
    rw [(w.perform_keeps a).1] at hl
    rw [(w.perform_keeps a).2] at hr
    exact ⟨_, .act hl, hr, ho⟩
  | dial k ih =>
    obtain ⟨l, hl, hr, ho⟩ := ih _ (hp _) h
    exact ⟨l, .dial _ hl, hr, ho⟩
  | acquire k ih =>
    obtain ⟨rfl, hp⟩ := hp
    obtain ⟨b, hb, hbr⟩ := AtRest.drifts_waitPermit h.channel
    obtain ⟨l, hl, hr, ho⟩ := ih _ _ (hp _ _)
      ⟨held_waitPermit h.channel, h.accounted.waitPermit⟩
    refine ⟨b ++ l, .acquire _ _ hb hl, ?_, ?_⟩
    · rw [requestsIn_append, ← List.append_assoc, ← hbr]
      exact hr
    · rw [outcomesIn_append, hb.outcomesIn_eq_nil]
      exact ho
  | exchange request k ih =>
    obtain ⟨rfl, hp⟩ := hp
    obtain ⟨b, hb, hbr⟩ := Held.drifts_exchange h.channel request
    obtain ⟨l, hl, hr, ho⟩ := ih _ _ (hp _ _)
      ⟨held_exchange h.channel request, h.accounted.exchange request⟩
    rw [requests_written w request (some c)] at hbr
    refine ⟨_, .exchange _ (w.exchange request).1 hb hl, ?_, ?_⟩
    · rw [← List.singleton_append, requestsIn_append, requestsIn_append, ← List.append_assoc,
        ← List.append_assoc, ← hbr]
      exact hr
    · have hsent : outcomesIn (some c) (⟨some c, w.session, .sent request⟩ :: b) = [] :=
        hb.outcomesIn_eq_nil c
      rw [outcomesIn_append, hsent, outcomesIn_ended]
      exact congrArg (_ :: ·) ho
  | release k ih =>
    obtain ⟨rfl, hp⟩ := hp
    obtain ⟨l, hl, hr, ho⟩ := ih hp ⟨Held.atRest_leave h.channel, h.accounted.leave .client⟩
    rw [(w.leave_keeps .client).1] at hl
    rw [(w.leave_keeps .client).2] at hr
    exact ⟨l, .release hl, hr, ho⟩
  | sleep ms k ih =>
    obtain ⟨rfl, hp⟩ := hp
    obtain ⟨b, hb, hbr⟩ := AtRest.drifts_waitUntil h.channel (fun _ => false) (w.clock + ms)
    obtain ⟨l, hl, hr, ho⟩ := ih _ _ (hp _ _)
      ⟨atRest_waitUntil h.channel _ _, h.accounted.waitUntil _ _⟩
    refine ⟨b ++ l, .sleep _ _ hb hl, ?_, ?_⟩
    · rw [requestsIn_append, ← List.append_assoc, ← hbr]
      exact hr
    · rw [outcomesIn_append, hb.outcomesIn_eq_nil]
      exact ho

/-- Runs explain the world : they reach its session, with the requests that the device has
received. -/
def Explained (w : World) : Prop :=
  ∃ config valid h, Reaches (fun _ => True) (Session.new config valid) h w.session ∧
    w.requests = requestsIn h

theorem Explained.drifts {w' : World} (h : w.Explained) (hd : w.Drifts w') : w'.Explained := by
  obtain ⟨config, valid, h, hr, hh⟩ := h
  obtain ⟨b, hb, hbr⟩ := hd
  exact ⟨config, valid, h ++ b, hr.idle hb, by rw [hbr, hh, requestsIn_append]⟩

/-- Every world that calls lead to is explained by runs of these calls. -/
theorem Reached.explained (hw : w.Reached) : w.Explained := by
  induction hw with
  | new config valid network device => exact ⟨config, valid, [], .refl, rfl⟩
  | call hw c ih =>
    obtain ⟨config, valid, h, hr, hh⟩ := ih
    obtain ⟨l, hl, hlr, -⟩ := exists_runs c.bracketed hw.stands c
    exact ⟨config, valid, h ++ l, hr.call c trivial hl, by rw [hlr, hh, requestsIn_append]⟩
  | receive hw ms ih => exact ih.drifts (AtRest.drifts_waitUntil hw.stands.channel _ _)
  | advance hw ms ih => exact ih.drifts (AtRest.drifts_waitUntil hw.stands.channel _ _)
  | device hw device ih => exact ih
  | sends hw bytes ih =>
    unfold deviceSends
    split
    · next hs => exact ih.drifts (drifts_fire (eq_of_beq hs.1) _)
    · exact ih
  | ends hw cause ih =>
    unfold deviceEnds
    split
    · exact ih.drifts (drifts_lose _ _)
    · exact ih

end World

end RemoteDebug
