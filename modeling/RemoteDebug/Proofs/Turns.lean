import RemoteDebug.Proofs.Exclusion

/-!
# Taking turns on a channel

What `Traffic.Sound` means for the callers of a channel. Who has the permit can come to give it back
without anybody's help, since an exchange to which no reply comes runs out of time
(`Traffic.Sound.canLeave`). So who is in line can come to be admitted
(`Traffic.Sound.exists_admitted`).

On a closed channel, who has not looked yet whether it is open finds it closed (`Advance.barred`),
so nobody comes to the point of writing a request (`Advance.committed`).

`one_exchange_at_a_time` is the law of the channel that comes of this.
-/

namespace RemoteDebug

open Traffic

variable {ι : Type} [DecidableEq ι]

/-! ## Giving the permit back -/

/-- A caller gets there by moves of its own. -/
def Alone (i : ι) (t t' : Traffic ι) : Prop :=
  ∃ ms, Course t ms t' ∧ ∀ m ∈ ms, m.caller? = some i

theorem Alone.snoc {i : ι} {t t₁ t₂ : Traffic ι} {m : Move ι} (h : Alone i t t₁)
    (hm : Moves t₁ m t₂) (hi : m.caller? = some i) : Alone i t t₂ := by
  obtain ⟨ms, hms, hown⟩ := h
  exact ⟨ms ++ [m], hms.append (.cons hm (.nil t₂)), by simpa [or_imp, forall_and, hi] using hown⟩

/-- A caller can come to give the permit back, by moves of its own that leave the gate alone. -/
def CanLeave (i : ι) (t : Traffic ι) : Prop :=
  ∃ t' r, Alone i t t' ∧ t'.place i = .doing (.release (.done r)) ∧
    t'.channel.gate = t.channel.gate ∧ t'.channel.connected = t.channel.connected

namespace CanLeave

variable {t t₁ : Traffic ι} {i : ι} {m : Move ι}

theorem cons (hm : Moves t m t₁) (hi : m.caller? = some i)
    (hgate : t₁.channel.gate = t.channel.gate)
    (hconnected : t₁.channel.connected = t.channel.connected) (h : CanLeave i t₁) :
    CanLeave i t := by
  obtain ⟨t', r, ⟨ms, hms, hown⟩, ht', hg, hc⟩ := h
  refine ⟨t', r, ⟨m :: ms, .cons hm hms, ?_⟩, ht', hg.trans hgate, hc.trans hconnected⟩
  exact List.forall_mem_cons.mpr ⟨hi, hown⟩

theorem of_over {p : Work} (hp : p.Over) (hi : t.place i = .doing p) : CanLeave i t := by
  induction p generalizing t with
  | act a k ih => exact cons (.notes hi) rfl rfl rfl (ih hp place_set_self)
  | release k =>
    obtain ⟨r, rfl⟩ := Prog.Over.eq_done hp
    exact ⟨t, r, ⟨[], .nil t, by simp⟩, hi, rfl, rfl⟩
  | _ => exact hp.elim

theorem of_outcome {stage : Stage} {mail : Option Outcome} {k : Outcome → Work} {o : Outcome}
    (hk : ∀ o, (k o).Over) (hi : t.place i = .exchanging stage mail k)
    (ho : stage.outcome? mail = some o) : CanLeave i t := by
  refine cons (.concludes hi ho) rfl ?_ ?_ (of_over (hk o) place_set_self)
  all_goals cases stage <;> rfl

/-- An exchange can come to an end, whatever the device does. -/
theorem of_exchanging {stage : Stage} {mail : Option Outcome} {k : Outcome → Work}
    (hk : ∀ o, (k o).Over) (hi : t.place i = .exchanging stage mail k) : CanLeave i t := by
  have hwritten {t : Traffic ι} (hi : t.place i = .exchanging .written mail k) : CanLeave i t := by
    cases mail with
    | some o => exact of_outcome hk hi rfl
    | none => exact cons (.lapses hi) rfl rfl rfl (of_outcome hk place_set_self rfl)
  cases stage with
  | armed request => exact cons (.writes hi) rfl rfl rfl (hwritten place_set_self)
  | written => exact hwritten hi
  | lapsed => exact of_outcome hk hi rfl
  | broken fault => exact of_outcome hk hi rfl

theorem of_passed {p : Work} (hp : p.Passed) (hi : t.place i = .doing p) : CanLeave i t := by
  cases p with
  | exchange request k => exact cons (.arms 0 hi) rfl rfl rfl (of_exchanging (hp 0) place_set_self)
  | _ => exact hp.elim

theorem of_entered {p : Work} (hp : p.Entered) (hi : t.place i = .doing p) : CanLeave i t := by
  cases p with
  | look k =>
    obtain ⟨s, hs⟩ : ∃ s : Session, s.isConnected = t.channel.connected := by
      let s := Session.new {} (by decide)
      cases t.channel.connected with
      | true => exact ⟨{ s with link := .up }, rfl⟩
      | false => exact ⟨s, rfl⟩
    refine cons (.looks s hi hs) rfl rfl rfl ?_
    have hk := hp s
    split at hk
    · exact of_passed hk place_set_self
    · exact of_over (p := .release (.done tooLate)) trivial (hk ▸ place_set_self)
  | _ => exact hp.elim

end CanLeave

namespace Traffic.Sound

variable {t : Traffic ι} {i : ι}

/-- Who has the permit can come to give it back. -/
theorem canLeave (h : t.Sound) (hi : (t.place i).Holds) : CanLeave i t := by
  have hfits := (h.agrees i).fits
  cases hx : t.place i with
  | idle => simp [hx, Place.Holds] at hi
  | queued k => simp [hx, Place.Holds] at hi
  | exchanging stage mail k =>
    rw [hx] at hfits
    exact .of_exchanging hfits hx
  | doing p =>
    rw [hx] at hi hfits
    cases p with
    | look k => exact .of_entered (p := .look k) hfits hx
    | exchange request k => exact .of_passed (p := .exchange request k) hfits hx
    | act a k => exact .of_over hfits hx
    | release k => exact .of_over hfits hx
    | _ => exact hi.elim

/-- Who has the permit can come to the end of its errand. -/
theorem exists_idle (h : t.Sound) (hi : (t.place i).Holds) :
    ∃ t', Alone i t t' ∧ t'.place i = .idle := by
  obtain ⟨t₁, r, halone, ht₁, -⟩ := h.canLeave hi
  have hdone : (t₁.leave i (.done r)).place i = .doing (.done r) := by
    simp [Traffic.leave, Place.admitted]
  refine ⟨_, (halone.snoc (.leaves ht₁) rfl).snoc (.ends hdone) rfl, ?_⟩
  simp

/-! ## The line -/

/-- Who is in line can be admitted, by moves of other callers alone. -/
theorem exists_admitted (h : t.Sound) (hc : t.channel.connected = true)
    (hi : i ∈ t.channel.gate.waiting) :
    ∃ ms t', Course t ms t' ∧ (∀ m ∈ ms, ∃ j, j ≠ i ∧ m.caller? = some j) ∧
      t'.channel.connected = true ∧ i ∈ t'.channel.gate.holders := by
  -- Each time the holder gives the permit back, the line gets shorter.
  induction hline : t.channel.gate.waiting generalizing t with
  | nil => simp [hline] at hi
  | cons n line ih =>
    rcases h.exclusive.permit with ⟨-, -, hnil⟩ | ⟨j, hj, -⟩
    · simp [hline] at hnil
    have hholds : (t.place j).Holds := (h.agrees j).mem_holders.mp (by simp [hj])
    obtain ⟨t₁, r, ⟨ms, hms, hown⟩, ht₁, hgate, hconnected⟩ := h.canLeave hholds
    have hcourse : Course t (ms ++ [.leaves j]) (t₁.leave j (.done r)) :=
      hms.append (.cons (.leaves ht₁) (.nil _))
    have hne : j ≠ i := by
      rintro rfl
      exact (h.agrees j).not_mem_waiting hholds hi
    have hcallers : ∀ m ∈ ms ++ [.leaves j], ∃ j', j' ≠ i ∧ m.caller? = some j' := by
      intro m hm
      rcases List.mem_append.mp hm with hm | hm
      · exact ⟨j, hne, hown m hm⟩
      · exact ⟨j, hne, by rw [List.mem_singleton.mp hm, Move.caller?]⟩
    have hholders : t₁.channel.gate.holders = [j] := hgate ▸ hj
    have hwaiting : t₁.channel.gate.waiting = n :: line := hgate ▸ hline
    have hchannel : (t₁.leave j (.done r)).channel = (t₁.channel.leave j).1 := rfl
    rw [Channel.leave_of_cons hholders hwaiting] at hchannel
    rw [hline] at hi
    rcases List.mem_cons.mp hi with rfl | hi
    · refine ⟨_, _, hcourse, hcallers, ?_, ?_⟩ <;> simp [hchannel, hconnected, hc]
    · have hopen : (t₁.leave j (.done r)).channel.connected = true := by
        simp [hchannel, hconnected, hc]
      obtain ⟨ms', t', hms', hcallers', hend⟩ :=
        ih (hcourse.sound h) hopen (by simpa [hchannel] using hi) (by simp [hchannel])
      refine ⟨_, t', hcourse.append hms', fun m hm => ?_, hend⟩
      exact (List.mem_append.mp hm).elim (hcallers m) (hcallers' m)

/-- Who calls and asks for the permit can be admitted, by moves of other callers alone. -/
theorem exists_admitted_of_call (h : t.Sound) (hc : t.channel.connected = true)
    (hi : t.place i = .idle) (e : Errand) :
    ∃ ms t', Course t (.calls i e :: .enters i :: ms) t' ∧
      (∀ m ∈ ms, ∃ j, j ≠ i ∧ m.caller? = some j) ∧
      t'.channel.connected = true ∧ i ∈ t'.channel.gate.holders := by
  obtain ⟨k, hk⟩ := e.outside_program.eq_acquire
  have hcalls : Moves t (.calls i e) (t.set i (.doing (.acquire k))) := hk ▸ .calls e hi
  have henters := Moves.enters 0 (place_set_self (t := t) (i := i) (x := .doing (.acquire k)))
  have hchannel : ((t.set i (.doing (.acquire k))).enter i (k 0)).channel =
      (t.channel.enter i).1 := rfl
  rcases t.channel.enter_cases i with ⟨n, -, -, heq⟩ | ⟨-, -, heq⟩ | ⟨hclosed, -⟩
  · rw [heq] at hchannel
    refine ⟨[], _, .cons hcalls (.cons henters (.nil _)), List.forall_mem_nil _, ?_, ?_⟩
    all_goals simp [hchannel, Channel.taken, hc]
  · rw [heq] at hchannel
    obtain ⟨ms, t', hms, hcallers, hend⟩ := (henters.sound (hcalls.sound h)).exists_admitted
      (i := i) (by simp [hchannel, Channel.joined, hc]) (by simp [hchannel, Channel.joined])
    exact ⟨ms, t', .cons hcalls (.cons henters hms), hcallers, hend⟩
  · rw [(h.exclusive.closed hclosed).2] at hc
    cases hc

end Traffic.Sound

/-! ## A closed channel -/

/-- A request is written, or cannot be written. -/
def Move.isWrite : Move ι → Bool
  | .writes _ _ | .breaks _ _ => true
  | _ => false

namespace Place

/-- The caller has found the channel open, and has not written its request. -/
def Committed : Place → Prop
  | .doing (.exchange _ _) => True
  | .exchanging (.armed _) _ _ => True
  | _ => False

/-- The caller has not looked yet whether the channel is open. -/
def Before : Place → Prop
  | .idle | .queued _ | .doing (.acquire _) | .doing (.look _) => True
  | _ => False

/-- The caller has not looked yet whether the channel is open, or has found it closed. -/
def Barred (x : Place) : Prop :=
  x.Before ∨ x = .doing (.release (.done tooLate)) ∨ x = .doing (.done tooLate)

theorem Committed.holds {x : Place} (h : x.Committed) : x.Holds := by
  cases x with
  | exchanging stage mail k => trivial
  | doing p =>
    cases p with
    | exchange request k => trivial
    | _ => exact h.elim
  | _ => exact h.elim

theorem Barred.not_committed {x : Place} (h : x.Barred) : ¬x.Committed := by
  rcases h with h | rfl | rfl
  · cases x with
    | exchanging stage mail k => exact h.elim
    | doing p =>
      cases p with
      | exchange request k => exact h.elim
      | _ => exact id
    | _ => exact id
  · exact id
  · exact id

end Place

theorem Prog.Outside.before {p : Work} (h : p.Outside) : (Place.doing p).Before := by
  obtain ⟨k, rfl⟩ := h.eq_acquire
  trivial

theorem Prog.Entered.before {p : Work} (h : p.Entered) : (Place.doing p).Before := by
  obtain ⟨k, rfl⟩ := h.eq_look
  trivial

theorem Prog.Over.not_committed {p : Work} (h : p.Over) : ¬(Place.doing p).Committed := by
  rcases h.eq_act_or_release with ⟨a, k, rfl⟩ | ⟨k, rfl⟩ <;> exact id

/-- On a closed channel, who has not looked yet finds it closed. -/
theorem Advance.barred {x y : Place} (h : Advance false x y) (hx : x.Fits) (hb : x.Barred) :
    y.Barred := by
  rcases hb with hb | rfl | rfl
  · cases h with
    | calls e => exact Or.inl e.outside_program.before
    | polls => exact Or.inl entered_pollProgram.before
    | enters k n admission =>
      obtain ⟨hin, hout⟩ := hx n
      cases admission with
      | admitted => exact Or.inl hin.before
      | queued => exact Or.inl trivial
      | refused => exact Or.inr (Or.inr (congrArg Place.doing hout))
    | admitted k => exact Or.inl hx.1.before
    | refused k => exact Or.inr (Or.inr (congrArg Place.doing hx.2))
    | @looks k s hs =>
      have hk := hx s
      rw [hs, if_neg Bool.false_ne_true] at hk
      exact Or.inr (Or.inl (congrArg Place.doing hk))
    | _ => exact hb.elim
  · cases h
    exact Or.inr (Or.inr rfl)
  · cases h
    exact Or.inl trivial

/-- On a closed channel, nobody comes to the point of writing a request. -/
theorem Advance.committed {x y : Place} (h : Advance false x y) (hx : x.Fits) (hy : y.Committed) :
    x.Committed := by
  by_cases hb : x.Before
  · exact absurd hy (h.barred hx (Or.inl hb)).not_committed
  · cases h with
    | arms request k n => trivial
    | receives stage o k => cases stage <;> exact hy
    -- After the exchange there is no other one.
    | notes a k => exact absurd hy (Prog.Over.not_committed (p := k) hx)
    | concludes stage mail k o => exact absurd hy (hx o).not_committed
    | leaves k =>
      obtain ⟨r, rfl⟩ := Prog.Over.eq_done hx
      exact hy.elim
    | writes request mail k => exact hy.elim
    | breaks request mail k fault => exact hy.elim
    | lapses k => exact hy.elim
    | ends r => exact hy.elim
    | _ => exact absurd trivial hb

section

variable {t t' : Traffic ι} {m : Move ι} {ms : List (Move ι)} {i : ι}

theorem Moves.connected_eq_false (h : Moves t m t') (hc : t.channel.connected = false) :
    t'.channel.connected = false := by
  cases h with
  | polls hi htry =>
    obtain ⟨n, -, -, rfl⟩ := Channel.tryEnter_eq_true htry
    exact hc
  | @concludes i stage =>
    cases stage <;> exact hc
  | marks => rfl
  | _ => exact hc

theorem Moves.committed (h : Moves t m t') (ht : t.Sound) (hc : t.channel.connected = false)
    (hi : (t'.place i).Committed) : (t.place i).Committed := by
  rcases h.proceeds i with hsame | hgoes
  · exact hsame ▸ hi
  · rw [hc] at hgoes
    exact hgoes.committed (ht.agrees i).fits hi

theorem Moves.barred (h : Moves t m t') (ht : t.Sound) (hc : t.channel.connected = false)
    (hi : (t.place i).Barred) : (t'.place i).Barred := by
  rcases h.proceeds i with hsame | hgoes
  · exact hsame ▸ hi
  · rw [hc] at hgoes
    exact hgoes.barred (ht.agrees i).fits hi

theorem Moves.write (h : Moves t m t') (hm : m.isWrite = true) :
    ∃ i, m.caller? = some i ∧ (t.place i).Committed ∧ ¬(t'.place i).Committed := by
  cases h with
  | @writes i request mail k hi =>
    exact ⟨i, rfl, by simp [hi, Place.Committed], by simp [Place.Committed]⟩
  | @breaks i request mail k fault hi =>
    exact ⟨i, rfl, by simp [hi, Place.Committed], by simp [Place.Committed]⟩
  | _ => cases hm

/-- On a closed channel, only who has found it open before writes. -/
theorem Course.write_committed (h : Course t ms t') (ht : t.Sound)
    (hc : t.channel.connected = false) :
    ∀ m ∈ ms, m.isWrite = true → ∃ i, m.caller? = some i ∧ (t.place i).Committed := by
  induction h with
  | nil t => simp
  | cons hm _ ih =>
    refine List.forall_mem_cons.mpr ⟨fun hw => ?_, fun m' hm' hw => ?_⟩
    · obtain ⟨i, hi, hcommitted, -⟩ := hm.write hw
      exact ⟨i, hi, hcommitted⟩
    · obtain ⟨i, hi, hcommitted⟩ := ih (hm.sound ht) (hm.connected_eq_false hc) m' hm' hw
      exact ⟨i, hi, hm.committed ht hc hcommitted⟩

/-- On a closed channel, at most one request is still written. -/
theorem Course.countP_isWrite_le (h : Course t ms t') (ht : t.Sound)
    (hc : t.channel.connected = false) : ms.countP Move.isWrite ≤ 1 := by
  induction h with
  | nil t => simp
  | @cons t t₁ t₂ m ms hm hms ih =>
    have ht₁ := hm.sound ht
    have hc₁ := hm.connected_eq_false hc
    cases hw : m.isWrite with
    | false => simpa [List.countP_cons, hw] using ih ht₁ hc₁
    | true =>
      -- Who writes had the permit, so nobody else is about to write.
      obtain ⟨i, -, hi, hi₁⟩ := hm.write hw
      have hnone : ms.countP Move.isWrite = 0 := by
        refine List.countP_eq_zero.mpr fun m' hm' hw' => ?_
        obtain ⟨j, -, hj₁⟩ := hms.write_committed ht₁ hc₁ m' hm' hw'
        obtain rfl := ht.eq_of_holds (hm.committed ht hc hj₁).holds hi.holds
        exact hi₁ hj₁
      simp [hw, hnone]

/-- On a closed channel, the errands of who has not looked yet fail. -/
theorem Course.ends_refused (h : Course t ms t') (ht : t.Sound) (hc : t.channel.connected = false)
    (hi : (t.place i).Barred) {r : Except Failure Unit} (hr : .ends i r ∈ ms) : r = tooLate := by
  induction h with
  | nil t => cases hr
  | cons hm _ ih =>
    rcases List.mem_cons.mp hr with rfl | hr
    · cases hm with
      | ends hdone =>
        rw [hdone] at hi
        rcases hi with hi | hi | hi
        · exact hi.elim
        · cases hi
        · cases hi
          rfl
    · exact ih (hm.sound ht) (hm.connected_eq_false hc) (hm.barred ht hc hi) hr

end

/-! ## The law of the channel -/

/-- Whatever callers, polls, the device and who closes the channel do, and in whatever order :

* at most one caller is in an exchange, and the slot is taken exactly while a caller is in an
  exchange for which nothing has come, by that caller ;
* the end of an exchange leaves the slot empty, whatever the end is, and who is back from an errand
  has neither the permit, nor a place in line, nor the slot. Who has the permit can come to the end
  of its errand by moves of its own, and while the channel is open, who calls and asks for the
  permit can come to be admitted for that errand, by moves of other callers ;
* bytes that arrive while the slot is empty change nothing ;
* once the channel is marked closed, at most one request is written, by a caller who had found the
  channel open before. The errands of all who had not looked yet, those in line among them, fail
  with a closed connection, and those in line have failed so when the gate is closed. -/
theorem one_exchange_at_a_time {ms : List (Move ι)} {t : Traffic ι} (h : Course .opened ms t) :
    (∀ i j, (t.place i).Exchanging → (t.place j).Exchanging → i = j) ∧
    (∀ i, t.channel.pending = some i ↔ (t.place i).Awaits) ∧
    (∀ i t', Moves t (.concludes i) t' → t'.channel.pending = none) ∧
    (∀ i, t.place i = .idle ∨ (∃ r, t.place i = .doing (.done r)) →
      i ∉ t.channel.gate.holders ∧ i ∉ t.channel.gate.waiting ∧ t.channel.pending ≠ some i) ∧
    (∀ i ∈ t.channel.gate.holders, ∃ t', Alone i t t' ∧ t'.place i = .idle) ∧
    (t.channel.connected = true → ∀ i, t.place i = .idle → ∀ e, ∃ ms' t',
      Course t (.calls i e :: .enters i :: ms') t' ∧
        (∀ m ∈ ms', ∃ j, j ≠ i ∧ m.caller? = some j) ∧
        t'.channel.connected = true ∧ i ∈ t'.channel.gate.holders) ∧
    (t.channel.pending = none → ∀ bytes t', Moves t (.delivers bytes) t' → t' = t) ∧
    (t.channel.connected = false → ∀ ms' t', Course t ms' t' →
      ms'.countP Move.isWrite ≤ 1 ∧
      (∀ m ∈ ms', m.isWrite = true → ∃ i, m.caller? = some i ∧ (t.place i).Committed) ∧
      (∀ i, (t.place i).Before → ∀ r, .ends i r ∈ ms' → r = .error .connectionClosed)) ∧
    (∀ t', Moves t .shuts t' → t'.channel.gate.waiting = [] ∧
      ∀ i ∈ t.channel.gate.waiting, t'.place i = .doing (.done (.error .connectionClosed))) := by
  have hsound := h.sound sound_opened
  refine ⟨?_, fun i => (hsound.agrees i).pending_iff, ?_, ?_, ?_, ?_, ?_, ?_, ?_⟩
  · exact fun i j hi hj => hsound.eq_of_holds hi.holds hj.holds
  · intro i t' hmoves
    cases hmoves with
    | concludes hi ho => rw [channel_set, hsound.settle_eq hi ho]
  · intro i hi
    refine (hsound.agrees i).apart ?_
    rcases hi with hi | ⟨r, hi⟩ <;> rw [hi] <;> exact ⟨id, id⟩
  · exact fun i hi => hsound.exists_idle ((hsound.agrees i).mem_holders.mp hi)
  · exact fun hc i hi e => hsound.exists_admitted_of_call hc hi e
  · rintro hp bytes t' ⟨⟩
    exact hand_of_none hp _
  · intro hc ms' t' hms
    refine ⟨hms.countP_isWrite_le hsound hc, hms.write_committed hsound hc, ?_⟩
    exact fun i hi r hr => hms.ends_refused hsound hc (Or.inl hi) hr
  · rintro t' ⟨⟩
    exact ⟨rfl, fun i hi => hsound.place_shut hi⟩

/-- A caller has written its request and another one is in line when the channel is marked closed :
the slot is that of the first, and the second fails with a closed connection. -/
theorem one_exchange_at_a_time_closed :
    let ms : List (Move Nat) := [.calls 0 (.send [1]), .calls 1 (.send [2]), .enters 0, .enters 1,
      .looks 0, .arms 0, .writes 0 [1], .marks]
    ∃ t, Course .opened ms t ∧ t.channel.pending = some 0 ∧ t.channel.gate.waiting = [1] ∧
      (∀ j, (t.place j).Exchanging → j = 0) ∧
      ∀ ms' t' r, Course t ms' t' → .ends 1 r ∈ ms' → r = .error .connectionClosed := by
  intro ms
  let s : Session := { Session.new {} (by decide) with link := .up }
  have h : ∃ t, Course .opened ms t ∧ (t.place 0).Exchanging ∧ (t.place 1).Before ∧
      t.channel = ⟨⟨0, [0], [1], false⟩, some 0, false⟩ :=
    ⟨_, .cons (.calls _ rfl) <| .cons (.calls _ rfl) <| .cons (.enters 0 rfl) <|
      .cons (.enters 0 rfl) <| .cons (.looks s rfl rfl) <| .cons (.arms 0 rfl) <|
      .cons (.writes rfl) <| .cons (.marks rfl) (.nil _), trivial, trivial, rfl⟩
  obtain ⟨t, ht, h0, h1, hchannel⟩ := h
  obtain ⟨hone, -, -, -, -, -, -, hclosed, -⟩ := one_exchange_at_a_time ht
  refine ⟨t, ht, by rw [hchannel], by rw [hchannel], fun j hj => hone j 0 hj h0, ?_⟩
  exact fun ms' t' r hms hr => (hclosed (by rw [hchannel]) ms' t' hms).2.2 1 h1 r hr

end RemoteDebug
