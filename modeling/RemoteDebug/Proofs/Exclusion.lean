import RemoteDebug.Proofs.Traffic

/-!
# One permit and one slot

`Traffic.Sound` says how the gate and the slot for a reply go together with where the callers are :
there is one permit, and the gate knows who has it and who is in line for it, and the slot is taken
exactly while the holder is in an exchange for which nothing has come. Every move keeps this
(`Moves.sound`), so it holds wherever moves lead (`Course.sound`).
-/

namespace RemoteDebug

variable {ι : Type}

/-! ## The channel -/

/-- The channel after a caller has taken the permit, which leaves `n` permits. -/
def Channel.taken (ch : Channel ι) (i : ι) (n : Nat) : Channel ι :=
  { ch with gate := { ch.gate with available := n, holders := ch.gate.holders ++ [i] } }

/-- The channel after a caller has joined the line. -/
def Channel.joined (ch : Channel ι) (i : ι) : Channel ι :=
  { ch with gate := { ch.gate with waiting := ch.gate.waiting ++ [i] } }

theorem Channel.tryEnter_eq_true {ch ch' : Channel ι} {i : ι} (h : ch.tryEnter i = (ch', true)) :
    ∃ n, ch.gate.closed = false ∧ ch.gate.available = n + 1 ∧ ch' = ch.taken i n := by
  unfold tryEnter Gate.tryAcquire at h
  cases hclosed : ch.gate.closed with
  | true => simp [hclosed] at h
  | false =>
    cases hav : ch.gate.available with
    | zero => simp [hclosed, hav] at h
    | succ n => exact ⟨n, rfl, rfl, by simpa [taken, hclosed, hav] using h.symm⟩

theorem Channel.enter_cases (ch : Channel ι) (i : ι) :
    (∃ n, ch.gate.closed = false ∧ ch.gate.available = n + 1 ∧
      ch.enter i = (ch.taken i n, .admitted)) ∨
    (ch.gate.closed = false ∧ ch.gate.available = 0 ∧ ch.enter i = (ch.joined i, .queued)) ∨
    (ch.gate.closed = true ∧ ch.enter i = (ch, .refused)) := by
  unfold enter Gate.acquire Gate.tryAcquire
  cases hclosed : ch.gate.closed with
  | true => simp
  | false =>
    cases hav : ch.gate.available with
    | zero => simp [joined, hclosed, hav]
    | succ n => simp [taken, hclosed]

section

variable [DecidableEq ι] {ch : Channel ι} {i : ι}

theorem Channel.leave_of_nil (hholders : ch.gate.holders = [i]) (hline : ch.gate.waiting = []) :
    ch.leave i =
      ({ ch with gate := ⟨ch.gate.available + 1, [], [], ch.gate.closed⟩ }, none) := by
  simp [leave, Gate.release, hholders, hline]

/-- The permit goes on to the first in line. -/
theorem Channel.leave_of_cons {n : ι} {line : List ι} (hholders : ch.gate.holders = [i])
    (hline : ch.gate.waiting = n :: line) :
    ch.leave i =
      ({ ch with gate := ⟨ch.gate.available, [n], line, ch.gate.closed⟩ }, some n) := by
  simp [leave, Gate.release, hholders, hline]

end

/-- There is one permit, and nobody is in line for it while it is free. Nobody is in line at a
closed gate, and an open channel has an open gate. -/
structure Channel.Exclusive (ch : Channel ι) : Prop where
  permit : (ch.gate.holders = [] ∧ ch.gate.available = 1 ∧ ch.gate.waiting = []) ∨
    ∃ i, ch.gate.holders = [i] ∧ ch.gate.available = 0
  nodup : ch.gate.waiting.Nodup
  closed : ch.gate.closed = true → ch.gate.waiting = [] ∧ ch.connected = false

/-! ## The channel and its callers -/

namespace Place

theorem Awaits.holds {x : Place} (h : x.Awaits) : x.Holds := by
  cases x with
  | exchanging stage mail k => trivial
  | _ => exact h.elim

theorem Exchanging.holds {x : Place} (h : x.Exchanging) : x.Holds := by
  cases x with
  | exchanging stage mail k => trivial
  | _ => exact h.elim

theorem Waits.not_holds {x : Place} (h : x.Waits) : ¬x.Holds := by
  cases x with
  | queued k => exact id
  | _ => exact h.elim

theorem Waits.eq_queued {x : Place} (h : x.Waits) : ∃ k, x = .queued k := by
  cases x with
  | queued k => exact ⟨k, rfl⟩
  | _ => exact h.elim

theorem Awaits.eq_exchanging {x : Place} (h : x.Awaits) :
    ∃ stage k, x = .exchanging stage none k := by
  cases x with
  | exchanging stage mail k => exact ⟨stage, k, congrArg (exchanging stage · k) h⟩
  | _ => exact h.elim

/-- The caller has nothing of the channel. -/
def Apart (x : Place) : Prop := ¬x.Holds ∧ ¬x.Waits

/-- The channel has the caller where the caller is. -/
structure Agrees (x : Place) (ch : Channel ι) (i : ι) : Prop where
  fits : x.Fits
  mem_holders : i ∈ ch.gate.holders ↔ x.Holds
  mem_waiting : i ∈ ch.gate.waiting ↔ x.Waits
  pending_iff : ch.pending = some i ↔ x.Awaits

variable {x : Place} {ch ch' : Channel ι} {i : ι}

/-- The channel changes, but not for the caller. -/
theorem Agrees.stays (h : x.Agrees ch i) (hholders : i ∈ ch'.gate.holders ↔ i ∈ ch.gate.holders)
    (hwaiting : i ∈ ch'.gate.waiting ↔ i ∈ ch.gate.waiting)
    (hpending : ch'.pending = some i ↔ ch.pending = some i) : x.Agrees ch' i where
  fits := h.fits
  mem_holders := hholders.trans h.mem_holders
  mem_waiting := hwaiting.trans h.mem_waiting
  pending_iff := hpending.trans h.pending_iff

theorem Agrees.not_mem_waiting (h : x.Agrees ch i) (hx : x.Holds) : i ∉ ch.gate.waiting :=
  fun hi => (h.mem_waiting.mp hi).not_holds hx

theorem Agrees.apart (h : x.Agrees ch i) (hx : x.Apart) :
    i ∉ ch.gate.holders ∧ i ∉ ch.gate.waiting ∧ ch.pending ≠ some i :=
  ⟨fun hi => hx.1 (h.mem_holders.mp hi), fun hi => hx.2 (h.mem_waiting.mp hi),
    fun hp => hx.1 (h.pending_iff.mp hp).holds⟩

theorem Apart.agrees (hx : x.Apart) (hfits : x.Fits)
    (hi : i ∉ ch.gate.holders ∧ i ∉ ch.gate.waiting ∧ ch.pending ≠ some i) : x.Agrees ch i where
  fits := hfits
  mem_holders := iff_of_false hi.1 hx.1
  mem_waiting := iff_of_false hi.2.1 hx.2
  pending_iff := iff_of_false hi.2.2 fun ha => hx.1 ha.holds

theorem Holds.agrees (hx : x.Holds) (hfits : x.Fits) (hholders : i ∈ ch.gate.holders)
    (hwaiting : i ∉ ch.gate.waiting) (hpending : ch.pending = some i ↔ x.Awaits) :
    x.Agrees ch i where
  fits := hfits
  mem_holders := iff_of_true hholders hx
  mem_waiting := iff_of_false hwaiting fun hw => hw.not_holds hx
  pending_iff := hpending

end Place

namespace Traffic

/-- The channel has everybody where they are, and keeps to its one permit. -/
structure Sound (t : Traffic ι) : Prop where
  agrees : ∀ i, (t.place i).Agrees t.channel i
  exclusive : t.channel.Exclusive

theorem sound_opened : (opened : Traffic ι).Sound where
  agrees i := by
    constructor <;>
      simp [opened, Channel.opened, Gate.new, Place.Fits, Place.Holds, Place.Waits, Place.Awaits]
  exclusive := ⟨Or.inl ⟨rfl, rfl, rfl⟩, List.nodup_nil, nofun⟩

namespace Sound

variable {t : Traffic ι} {i j : ι} {x y : Place}

theorem holders_eq (h : t.Sound) (hi : (t.place i).Holds) :
    t.channel.gate.holders = [i] ∧ t.channel.gate.available = 0 := by
  rw [← (h.agrees i).mem_holders] at hi
  rcases h.exclusive.permit with ⟨hnone, -⟩ | ⟨m, hm, hav⟩
  · simp [hnone] at hi
  · rw [hm, List.mem_singleton] at hi
    exact ⟨hi ▸ hm, hav⟩

/-- There is one holder at most. -/
theorem eq_of_holds (h : t.Sound) (hi : (t.place i).Holds) (hj : (t.place j).Holds) : i = j := by
  have heq : [i] = [j] := (h.holders_eq hi).1.symm.trans (h.holders_eq hj).1
  exact List.singleton_inj.mp heq

/-- Only the holder can have the slot. -/
theorem pending_ne (h : t.Sound) (hi : (t.place i).Holds) (hj : j ≠ i) :
    t.channel.pending ≠ some j :=
  fun hp => hj (h.eq_of_holds ((h.agrees j).pending_iff.mp hp).holds hi)

/-- The slot is the holder's, if it waits for a reply. -/
theorem pending_iff_of_holds (h : t.Sound) (hi : t.place i = x) (hholds : x.Holds) (j : ι) :
    t.channel.pending = some j ↔ j = i ∧ x.Awaits := by
  subst hi
  by_cases hj : j = i
  · simp [hj, (h.agrees i).pending_iff]
  · simp [hj, h.pending_ne hholds hj]

/-- An exchange that ends leaves the slot empty. -/
theorem settle_eq (h : t.Sound) {stage : Stage} {mail : Option Outcome} {k : Outcome → Work}
    {o : Outcome} (hi : t.place i = .exchanging stage mail k) (ho : stage.outcome? mail = some o) :
    stage.settle t.channel = { t.channel with pending := none } := by
  cases stage with
  | armed request => simp [Stage.outcome?] at ho
  | written =>
    obtain rfl : mail = some o := ho
    have hpending : t.channel.pending = none := by
      rw [Option.eq_none_iff_forall_ne_some]
      simp [h.pending_iff_of_holds hi trivial, Place.Awaits]
    rw [← hpending]
    rfl
  | lapsed => rfl
  | broken fault => rfl

/-- If a permit is free, nobody holds one and nobody is in line. -/
theorem gate_of_available (h : t.Sound) {n : Nat} (hav : t.channel.gate.available = n + 1) :
    n = 0 ∧ t.channel.gate.holders = [] ∧ t.channel.gate.waiting = [] := by
  rcases h.exclusive.permit with ⟨hnone, hone, hline⟩ | ⟨m, -, hzero⟩
  · exact ⟨by omega, hnone, hline⟩
  · omega

theorem mark (h : t.Sound) : t.mark.Sound where
  agrees i := (h.agrees i).stays Iff.rfl Iff.rfl Iff.rfl
  exclusive := { h.exclusive with closed := fun hc => ⟨(h.exclusive.closed hc).1, rfl⟩ }

variable [DecidableEq ι]

theorem of_set (hothers : ∀ j, j ≠ i → (t.place j).Agrees t.channel j)
    (hx : x.Agrees t.channel i) (hexclusive : t.channel.Exclusive) : (t.set i x).Sound where
  agrees j := by
    rw [place_set]
    split
    · next hj => exact hj ▸ hx
    · next hj => exact hothers j hj
  exclusive := hexclusive

/-- A caller who has nothing of the channel goes on without it. -/
theorem set (h : t.Sound) (hi : t.place i = x) (hx : x.Apart) (hy : y.Apart) (hfits : y.Fits) :
    (t.set i y).Sound := by
  subst hi
  exact of_set (fun j _ => h.agrees j) (hy.agrees hfits ((h.agrees i).apart hx)) h.exclusive

/-- The holder goes on with the permit, and puts the slot right. -/
theorem goes (h : t.Sound) (hi : t.place i = x) (hholds : x.Holds)
    (hxy : Advance t.channel.connected x y) (hstays : ¬x.Leaving) {p : Option ι}
    (hp : ∀ j, p = some j ↔ j = i ∧ y.Awaits) :
    ({ t with channel := { t.channel with pending := p } }.set i y).Sound := by
  subst hi
  have hy := hxy.holds (h.agrees i).fits hholds hstays
  refine of_set (fun j hj => ?_) ?_ ⟨h.exclusive.permit, h.exclusive.nodup, h.exclusive.closed⟩
  · exact (h.agrees j).stays Iff.rfl Iff.rfl (by simp [hp, hj, h.pending_ne hholds hj])
  · exact hy.agrees (hxy.fits (h.agrees i).fits) ((h.agrees i).mem_holders.mpr hholds)
      ((h.agrees i).not_mem_waiting hholds) (by simp [hp])

/-- The holder goes on with the permit and leaves the slot as it is. -/
theorem keeps (h : t.Sound) (hi : t.place i = x) (hholds : x.Holds)
    (hxy : Advance t.channel.connected x y) (hstays : ¬x.Leaving)
    (hawaits : y.Awaits ↔ x.Awaits) : (t.set i y).Sound := by
  refine h.goes hi hholds hxy hstays (p := t.channel.pending) fun j => ?_
  rw [h.pending_iff_of_holds hi hholds, hawaits]

/-- A caller takes the permit, which is free. -/
theorem taken (h : t.Sound) (hi : t.place i = x) (hx : x.Apart) {n : Nat}
    (hopen : t.channel.gate.closed = false) (hav : t.channel.gate.available = n + 1) {p : Work}
    (hp : p.Entered) :
    ({ t with channel := t.channel.taken i n }.set i (.doing p)).Sound := by
  subst hi
  obtain ⟨rfl, hnone, hline⟩ := h.gate_of_available hav
  refine of_set (fun j hj => ?_) ?_ ⟨?_, h.exclusive.nodup, fun hc => ?_⟩
  · exact (h.agrees j).stays (by simp [Channel.taken, hj]) Iff.rfl Iff.rfl
  · refine hp.holds.agrees hp.fits (by simp [Channel.taken]) (by simp [Channel.taken, hline]) ?_
    exact iff_of_false ((h.agrees i).apart hx).2.2 id
  · exact Or.inr ⟨i, by simp [Channel.taken, hnone], rfl⟩
  · simp [Channel.taken, hopen] at hc

/-- A caller joins the line. -/
theorem joined (h : t.Sound) (hi : t.place i = x) (hx : x.Apart)
    (hopen : t.channel.gate.closed = false) (hav : t.channel.gate.available = 0)
    {k : Bool → Work} (hk : (Place.queued k).Fits) :
    ({ t with channel := t.channel.joined i }.set i (.queued k)).Sound := by
  subst hi
  obtain ⟨hholders, hwaiting, hpending⟩ := (h.agrees i).apart hx
  refine of_set (fun j hj => ?_) ?_ ⟨?_, ?_, fun hc => ?_⟩
  · exact (h.agrees j).stays Iff.rfl (by simp [Channel.joined, hj]) Iff.rfl
  · exact ⟨hk, iff_of_false hholders id, by simp [Channel.joined, Place.Waits],
      iff_of_false hpending id⟩
  · rcases h.exclusive.permit with ⟨-, hone, -⟩ | hheld
    · omega
    · exact Or.inr hheld
  · simpa [Channel.joined, List.nodup_append] using
      ⟨h.exclusive.nodup, fun a ha => ne_of_mem_of_not_mem ha hwaiting⟩
  · simp [Channel.joined, hopen] at hc

theorem enter (h : t.Sound) {k : Nat → Bool → Work} (hi : t.place i = .doing (.acquire k))
    (n : Nat) : (t.enter i (k n)).Sound := by
  have hfits : (Place.doing (.acquire k)).Fits := hi ▸ (h.agrees i).fits
  obtain ⟨hin, hout⟩ := hfits n
  have hapart : (Place.doing (.acquire k)).Apart := ⟨id, id⟩
  unfold Traffic.enter
  rcases t.channel.enter_cases i with ⟨m, hopen, hav, heq⟩ | ⟨hopen, hav, heq⟩ | ⟨-, heq⟩
  · rw [heq]
    exact h.taken hi hapart hopen hav hin
  · rw [heq]
    exact h.joined hi hapart hopen hav ⟨hin, hout⟩
  · simp only [heq, Place.asked, hout]
    exact h.set hi hapart ⟨id, id⟩ trivial

/-- The permit becomes free. -/
theorem leave_of_nil (h : t.Sound) {r : Except Failure Unit}
    (hi : t.place i = .doing (.release (.done r))) (hline : t.channel.gate.waiting = []) :
    (t.leave i (.done r)).Sound := by
  obtain ⟨hholders, hav⟩ := h.holders_eq (i := i) (by simp [hi, Place.Holds])
  have hpending : t.channel.pending ≠ some i := by simp [(h.agrees i).pending_iff, hi, Place.Awaits]
  simp only [Traffic.leave, Channel.leave_of_nil hholders hline, Option.toList_none, each_nil]
  refine of_set (fun j hj => ?_) ?_ ⟨?_, List.nodup_nil, fun hc => ?_⟩
  · exact (h.agrees j).stays (by simp [hholders, hj]) (by simp [hline]) Iff.rfl
  · exact Place.Apart.agrees ⟨id, id⟩ trivial ⟨List.not_mem_nil, List.not_mem_nil, hpending⟩
  · exact Or.inl ⟨rfl, by simp [hav], rfl⟩
  · exact ⟨rfl, (h.exclusive.closed hc).2⟩

/-- The permit goes to the first in line. -/
theorem leave_of_cons (h : t.Sound) {r : Except Failure Unit} {n : ι} {line : List ι}
    (hi : t.place i = .doing (.release (.done r))) (hline : t.channel.gate.waiting = n :: line) :
    (t.leave i (.done r)).Sound := by
  have hholds : (t.place i).Holds := by simp [hi, Place.Holds]
  obtain ⟨hholders, hav⟩ := h.holders_eq hholds
  have hpending : t.channel.pending ≠ some i := by simp [(h.agrees i).pending_iff, hi, Place.Awaits]
  have hwaiting : i ≠ n ∧ i ∉ line := by
    simpa [hline] using (h.agrees i).not_mem_waiting hholds
  have hnodup : n ∉ line ∧ line.Nodup := List.nodup_cons.mp (hline ▸ h.exclusive.nodup)
  obtain ⟨k, hk⟩ := ((h.agrees n).mem_waiting.mp (by simp [hline])).eq_queued
  have hfits : (Place.queued k).Fits := hk ▸ (h.agrees n).fits
  simp only [Traffic.leave, Channel.leave_of_cons hholders hline, Option.toList_some,
    each_singleton, place_set, if_neg hwaiting.1.symm, hk, Place.admitted]
  refine of_set (fun j hj => ?_) ?_ ⟨Or.inr ⟨n, rfl, hav⟩, hnodup.2, fun hc => ?_⟩
  · rw [place_set]
    split
    · next hji =>
      subst hji
      exact Place.Apart.agrees ⟨id, id⟩ trivial ⟨by simpa using hj, hwaiting.2, hpending⟩
    · next hji =>
      exact (h.agrees j).stays (by simp [hholders, hj, hji]) (by simp [hline, hj]) Iff.rfl
  · refine hfits.1.holds.agrees hfits.1.fits (by simp) hnodup.1 (iff_of_false ?_ id)
    exact h.pending_ne hholds hwaiting.1.symm
  · exact absurd (h.exclusive.closed hc).1 (by simp [hline])

/-- Something comes for the holder, who waits for it, or for nobody. -/
theorem hand (h : t.Sound) (o : Outcome) : (t.hand o).Sound := by
  cases hp : t.channel.pending with
  | none => exact (hand_of_none hp o).symm ▸ h
  | some i =>
    obtain ⟨stage, k, hk⟩ := ((h.agrees i).pending_iff.mp hp).eq_exchanging
    simp only [Traffic.hand, Channel.deliver, Channel.disarm, hp, Option.toList_some,
      each_singleton, hk, Place.received]
    exact h.goes hk trivial (.receives stage o k) id (by simp [Place.Awaits])

/-- Who is in line when the gate closes fails. -/
theorem place_shut (h : t.Sound) (hi : i ∈ t.channel.gate.waiting) :
    t.shut.place i = .doing (.done tooLate) := by
  obtain ⟨k, hk⟩ := ((h.agrees i).mem_waiting.mp hi).eq_queued
  have hfits : (Place.queued k).Fits := hk ▸ (h.agrees i).fits
  simp [Traffic.shut, Gate.close, hi, hk, Place.refused, hfits.2]

theorem shut (h : t.Sound) (hc : t.channel.connected = false) : t.shut.Sound := by
  refine ⟨fun j => ?_, ⟨?_, List.nodup_nil, fun _ => ⟨rfl, hc⟩⟩⟩
  · by_cases hj : j ∈ t.channel.gate.waiting
    · have hholds := ((h.agrees j).mem_waiting.mp hj).not_holds
      rw [h.place_shut hj]
      refine Place.Apart.agrees ⟨id, id⟩ trivial ⟨?_, List.not_mem_nil, ?_⟩
      · exact fun hm => hholds ((h.agrees j).mem_holders.mp hm)
      · exact fun hp => hholds ((h.agrees j).pending_iff.mp hp).holds
    · have hsame : t.shut.place j = t.place j := if_neg hj
      rw [hsame]
      exact (h.agrees j).stays Iff.rfl (iff_of_false List.not_mem_nil hj) Iff.rfl
  · rcases h.exclusive.permit with ⟨hnone, hone, -⟩ | hheld
    · exact Or.inl ⟨hnone, hone, rfl⟩
    · exact Or.inr hheld

end Sound

end Traffic

open Traffic

variable [DecidableEq ι]

/-- Every move keeps the channel and its callers together. -/
theorem Moves.sound {t t' : Traffic ι} {m : Move ι} (h : Moves t m t') (ht : t.Sound) :
    t'.Sound := by
  cases h with
  | calls e hi =>
    have hout := e.outside_program
    exact ht.set hi ⟨id, id⟩ ⟨hout.not_holds, id⟩ hout.fits
  | polls hi hc =>
    obtain ⟨n, hopen, hav, rfl⟩ := Channel.tryEnter_eq_true hc
    exact ht.taken hi ⟨id, id⟩ hopen hav entered_pollProgram
  | enters n hi => exact ht.enter hi n
  | looks s hi hs => exact ht.keeps hi trivial (.looks hs) id Iff.rfl
  | notes hi => exact ht.keeps hi trivial (.notes _ _) id Iff.rfl
  | arms n hi =>
    exact ht.goes hi trivial (.arms _ _ n) id (by simp [Place.Awaits, eq_comm])
  | writes hi => exact ht.keeps hi trivial (.writes _ _ _) id Iff.rfl
  | breaks fault hi => exact ht.keeps hi trivial (.breaks _ _ _ fault) id Iff.rfl
  | lapses hi => exact ht.keeps hi trivial (.lapses _) id Iff.rfl
  | concludes hi ho =>
    rw [ht.settle_eq hi ho]
    exact ht.goes hi trivial (.concludes _ _ _ _) id (by simp [Place.Awaits])
  | @leaves i k hi =>
    have hfits : (Place.doing (.release k)).Fits := hi ▸ (ht.agrees i).fits
    obtain ⟨r, rfl⟩ := Prog.Over.eq_done hfits
    cases hline : t.channel.gate.waiting with
    | nil => exact ht.leave_of_nil hi hline
    | cons n line => exact ht.leave_of_cons hi hline
  | ends hi => exact ht.set hi ⟨id, id⟩ ⟨id, id⟩ trivial
  | delivers bytes => exact ht.hand _
  | marks hc => exact ht.mark
  | shuts hc => exact ht.shut hc
  | drops hc => exact ht.hand _

theorem Course.sound {t t' : Traffic ι} {ms : List (Move ι)} (h : Course t ms t') (ht : t.Sound) :
    t'.Sound := by
  induction h with
  | nil t => exact ht
  | cons hm _ ih => exact ih (hm.sound ht)

end RemoteDebug
