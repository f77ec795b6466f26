import Mathlib.Algebra.Order.Floor.Div
import RemoteDebug.Proofs.Simulated

/-!
# What operations spend on their waits

Each wait of a program has a price. `Prog.Spends c price p n` says that `p` never spends more than
`n` on its waits in a session with the configuration `c`, whatever they come to. There is one lemma
for each operation, with the prices left open. At a price of one for every wait it is how often the
operation waits at most, and so when it ends. At a price of one for the requests of a kind it is how
many of them it sends at most (`Prog.Spends.countP_le`).

Waiting for a stop is bounded by its deadline. Each round takes at least the pause between two
looks, so that the number of rounds is the quotient of the two, rounded up
(`Op.spends_waitStopFrom`).
-/

namespace RemoteDebug

/-- What a program waits for. -/
inductive Wait where
  /-- The device is reached for. -/
  | device
  | permit
  | reply (request : Bytes)
  /-- Time passes. -/
  | pause
  deriving DecidableEq, Repr

/-- In a session with the configuration `c`, the program spends at most `n` on its waits, whatever
they come to. -/
def Prog.Spends {α : Type} (c : Config) (price : Wait → Nat) : Prog α → Nat → Prop
  | .done _, _ => True
  | .look k, n => ∀ s : Session, s.config = c → (k s).Spends c price n
  | .act _ k, n => k.Spends c price n
  | .dial k, n => ∃ m, price .device + m ≤ n ∧ ∀ o, (k o).Spends c price m
  | .acquire k, n => ∃ m, price .permit + m ≤ n ∧ ∀ t admitted, (k t admitted).Spends c price m
  | .exchange request k, n =>
    ∃ m, price (.reply request) + m ≤ n ∧ ∀ t o, (k t o).Spends c price m
  | .release k, n => k.Spends c price n
  | .sleep _ k, n => ∃ m, price .pause + m ≤ n ∧ ∀ t ht, (k t ht).Spends c price m

variable {α β : Type} {c : Config} {price : Wait → Nat}

namespace Prog

theorem Spends.mono {p : Prog α} {m n : Nat} (h : p.Spends c price m) (hmn : m ≤ n) :
    p.Spends c price n := by
  induction p generalizing m n with
  | done a => trivial
  | look k ih => exact fun s hs => ih s (h s hs) hmn
  | act a k ih => exact ih h hmn
  | dial k ih =>
    obtain ⟨i, hi, hk⟩ := h
    exact ⟨i, hi.trans hmn, hk⟩
  | acquire k ih =>
    obtain ⟨i, hi, hk⟩ := h
    exact ⟨i, hi.trans hmn, hk⟩
  | exchange request k ih =>
    obtain ⟨i, hi, hk⟩ := h
    exact ⟨i, hi.trans hmn, hk⟩
  | release k ih => exact ih h hmn
  | sleep ms k ih =>
    obtain ⟨i, hi, hk⟩ := h
    exact ⟨i, hi.trans hmn, hk⟩

/-- Programs in a row spend what each of them does. -/
theorem Spends.bind {p : Prog α} {f : α → Prog β} {m n : Nat} (hp : p.Spends c price m)
    (hf : ∀ a, (f a).Spends c price n) : (p.bind f).Spends c price (m + n) := by
  induction p generalizing m with
  | done a => exact (hf a).mono (Nat.le_add_left n m)
  | look k ih => exact fun s hs => ih s (hp s hs)
  | act a k ih => exact ih hp
  | dial k ih =>
    obtain ⟨i, hi, hk⟩ := hp
    exact ⟨i + n, by omega, fun o => ih o (hk o)⟩
  | acquire k ih =>
    obtain ⟨i, hi, hk⟩ := hp
    exact ⟨i + n, by omega, fun t admitted => ih t admitted (hk t admitted)⟩
  | exchange request k ih =>
    obtain ⟨i, hi, hk⟩ := hp
    exact ⟨i + n, by omega, fun t o => ih t o (hk t o)⟩
  | release k ih => exact ih hp
  | sleep ms k ih =>
    obtain ⟨i, hi, hk⟩ := hp
    exact ⟨i + n, by omega, fun t ht => ih t ht (hk t ht)⟩

end Prog

/-! ## What a run has sent -/

/-- The requests that a call has sent. -/
def sentBy (c : Option Call) (h : History) : List Bytes :=
  h.filterMap fun m => match m.what with
    | .sent request => if m.call = c then some request else none
    | _ => none

@[simp]
theorem sentBy_append (c : Option Call) (h l : History) :
    sentBy c (h ++ l) = sentBy c h ++ sentBy c l :=
  List.filterMap_append

theorem sentBy_sent (c : Option Call) (s : Session) (request : Bytes) (l : History) :
    sentBy c (⟨c, s, .sent request⟩ :: l) = request :: sentBy c l := by
  simp [sentBy]

theorem sentBy_ended (c c' : Option Call) (s : Session) (request : Bytes) (o : Outcome)
    (l : History) : sentBy c (⟨c', s, .ended request o⟩ :: l) = sentBy c l := rfl

theorem sentBy_acted (c c' : Option Call) (s : Session) (a : Act) (l : History) :
    sentBy c (⟨c', s, .acted a⟩ :: l) = sentBy c l := rfl

/-- The background sends nothing for a call. -/
theorem Idle.sentBy_eq_nil {s s' : Session} {b : History} (h : Idle s b s') (call : Call) :
    sentBy (some call) b = [] := by
  induction h with
  | nil => rfl
  | cons hstirs _ ih =>
    rw [sentBy_append, ih]
    cases hstirs <;> rfl

/-- The requests of a run that is over are those of its exchanges. -/
theorem Runs.sentBy_eq {α : Type} {call : Call} {p : Prog α} {s s' : Session} {l : History} {a : α}
    (h : Runs (some call) p s l s' (some a)) :
    sentBy (some call) l = (outcomesIn (some call) l).map Prod.fst := by
  induction p generalizing s l with
  | done b =>
    cases h
    rfl
  | look k ih =>
    cases h with
    | look h => exact ih s h
  | act b k ih =>
    cases h with
    | act h =>
      rw [sentBy_acted]
      exact ih h
  | dial k ih =>
    cases h with
    | dial o h => exact ih o h
  | acquire k ih =>
    cases h with
    | acquire t admitted hb h =>
      simp [hb.sentBy_eq_nil, hb.outcomesIn_eq_nil, ih t admitted h]
  | exchange request k ih =>
    cases h with
    | exchange t o hb h =>
      rw [List.cons_append, sentBy_sent, sentBy_append, hb.sentBy_eq_nil, sentBy_ended, ih t o h]
      have hsent : ∀ b : History, outcomesIn (some call) (⟨some call, s, .sent request⟩ :: b) =
          outcomesIn (some call) b := fun _ => rfl
      rw [hsent, outcomesIn_append, hb.outcomesIn_eq_nil, List.nil_append, outcomesIn_ended]
      rfl
  | release k ih =>
    cases h with
    | release h => exact ih h
  | sleep ms k ih =>
    cases h with
    | sleep t ht hb h =>
      simp [hb.sentBy_eq_nil, hb.outcomesIn_eq_nil, ih t ht h]

theorem Session.config_apply (s : Session) (a : Act) : (s.apply a).config = s.config := by
  cases a <;> simp only [apply, clean]
  all_goals split <;> rfl

/-- The requests of a run that cost something are no more than what its program spends. -/
theorem Prog.Spends.countP_le {call : Call} {p : Prog α} {n : Nat} {counts : Bytes → Bool}
    (hp : p.Spends c price n)
    (hprice : ∀ request, counts request = true → 1 ≤ price (.reply request)) {s s' : Session}
    {l : History} {r : Option α} (hr : Runs (some call) p s l s' r) (hs : s.config = c) :
    (sentBy (some call) l).countP counts ≤ n := by
  have hone (request : Bytes) : [request].countP counts ≤ price (.reply request) := by
    rw [List.countP_singleton]
    split
    · next h => exact hprice request h
    · exact Nat.zero_le _
  induction hr generalizing n with
  | done => exact Nat.zero_le _
  | look _ ih => exact ih (hp _ hs) hs
  | act _ ih =>
    rw [sentBy_acted]
    exact ih hp ((Session.config_apply _ _).trans hs)
  | dialing => exact Nat.zero_le _
  | dial o _ ih =>
    obtain ⟨m, hm, hk⟩ := hp
    exact (ih (hk o) hs).trans (by omega)
  | acquiring _ hb =>
    rw [hb.sentBy_eq_nil]
    exact Nat.zero_le _
  | acquire t admitted hb _ ih =>
    obtain ⟨m, hm, hk⟩ := hp
    rw [sentBy_append, hb.sentBy_eq_nil, List.nil_append]
    exact (ih (hk t admitted) (hb.keeps.2.trans hs)).trans (by omega)
  | @exchanging k _ _ request _ hb =>
    obtain ⟨m, hm, hk⟩ := hp
    rw [sentBy_sent, hb.sentBy_eq_nil]
    exact (hone request).trans (by omega)
  | @exchange k _ _ _ request b l _ t o hb _ ih =>
    obtain ⟨m, hm, hk⟩ := hp
    have hrest := ih (hk t o) (hb.keeps.2.trans hs)
    have hfirst := hone request
    rw [List.cons_append, sentBy_sent, sentBy_append, hb.sentBy_eq_nil, List.nil_append,
      sentBy_ended, ← List.singleton_append, List.countP_append]
    omega
  | release _ ih => exact ih hp hs
  | sleeping _ hb =>
    rw [hb.sentBy_eq_nil]
    exact Nat.zero_le _
  | sleep t ht hb _ ih =>
    obtain ⟨m, hm, hk⟩ := hp
    rw [sentBy_append, hb.sentBy_eq_nil, List.nil_append]
    exact (ih (hk t ht) (hb.keeps.2.trans hs)).trans (by omega)

/-! ## Operations -/

/-- How often a wait for a stop asks for the status at most. -/
def Config.looks (c : Config) : Nat := c.responseTimeout.toNat ⌈/⌉ c.stopPoll.toNat

namespace Op

/-- The operation spends at most `n` on its waits. -/
def Spends (c : Config) (price : Wait → Nat) (op : Op α) (n : Nat) : Prop :=
  Prog.Spends c price op.run n

theorem Spends.mono {op : Op α} {m n : Nat} (h : op.Spends c price m) (hmn : m ≤ n) :
    op.Spends c price n :=
  Prog.Spends.mono h hmn

theorem spends_bind {op : Op α} {f : α → Op β} {m n : Nat} (hop : op.Spends c price m)
    (hf : ∀ a, (f a).Spends c price n) : (op >>= f).Spends c price (m + n) := by
  refine Prog.Spends.bind hop fun r => ?_
  cases r with
  | error e => trivial
  | ok a => exact hf a

/-- What costs nothing is gone on with at the price of the rest. -/
theorem spends_bind_of_free {op : Op α} {f : α → Op β} {n : Nat} (hop : op.Spends c price 0)
    (hf : ∀ a, (f a).Spends c price n) : (op >>= f).Spends c price n := by
  rw [← Nat.zero_add n]
  exact spends_bind hop hf

/-- What is seen of a session is what one with the configuration `c` may be. -/
theorem spends_session_bind {f : Session → Op β} {n : Nat}
    (hf : ∀ s : Session, s.config = c → (f s).Spends c price n) :
    (session >>= f).Spends c price n :=
  hf

theorem spends_ofExcept {ε : Type} (f : ε → Failure) (e : Except ε α) :
    (ofExcept f e).Spends c price 0 := by
  cases e <;> trivial

theorem spends_requireLink : requireLink.Spends c price 0 := by
  refine spends_session_bind fun s _ => ?_
  split <;> trivial

theorem spends_acquire : acquire.Spends c price (price .permit) :=
  ⟨0, Nat.le_refl _, fun _ _ => trivial⟩

theorem spends_sleep (ms : Nat) : (sleep ms).Spends c price (price .pause) :=
  ⟨0, Nat.le_refl _, fun _ _ => trivial⟩

theorem spends_releasing {op : Op α} {n : Nat} (h : op.Spends c price n) :
    (releasing op).Spends c price n :=
  Prog.Spends.bind (n := 0) h fun _ => trivial

theorem spends_exchange (request : Bytes) :
    (exchange request).Spends c price (price (.reply request)) := by
  refine spends_session_bind fun s _ => ?_
  split
  · exact ⟨0, Nat.le_refl _, fun _ _ => trivial⟩
  · trivial

theorem spends_command (p : Wire.Packet) :
    (command p).Spends c price (price .permit + price (.reply p.encode)) := by
  have hsend : (send p.encode).Spends c price (price .permit + price (.reply p.encode)) :=
    spends_bind spends_acquire fun _ =>
      spends_bind (n := 0) (spends_releasing (spends_exchange _)) fun _ => trivial
  exact spends_bind (n := 0) hsend fun _ => spends_ofExcept _ _

theorem spends_refresh : refresh.Spends c price (price (.reply statusRequest)) :=
  spends_bind (n := 0) (spends_exchange _) fun _ =>
    spends_bind_of_free (spends_ofExcept _ _) fun _ => trivial

theorem spends_readFrame (index : UInt32) : (readFrame index).Spends c price
    (price .permit + price (.reply (frameRequest index).encode)) := by
  refine spends_bind_of_free spends_requireLink fun _ => ?_
  refine spends_bind (n := 0) (spends_command (frameRequest index)) fun reply => ?_
  refine spends_bind_of_free (spends_ofExcept _ _) fun raw => ?_
  split
  · trivial
  · refine spends_session_bind fun s _ => ?_
    exact spends_bind_of_free (spends_ofExcept _ _) fun _ => trivial

theorem spends_topFrame : topFrame.Spends c price
    (price .permit + price (.reply (frameRequest 0).encode)) := by
  refine spends_session_bind fun s _ => ?_
  split
  · trivial
  · exact spends_bind (n := 0) (spends_readFrame 0) fun _ => trivial

/-! ## Stopping and stepping -/

/-- After a round that takes at least `b`, one round less is left. -/
theorem ceilDiv_sub_succ_le {a b i : Nat} (hb : 0 < b) (ha : 0 < a) (hi : b ≤ i) :
    (a - i) ⌈/⌉ b + 1 ≤ a ⌈/⌉ b := by
  have hceil : a ≤ b * (a ⌈/⌉ b) := (ceilDiv_le_iff_le_mul hb).mp (Nat.le_refl _)
  have hpos : 0 < a ⌈/⌉ b := by
    refine Nat.pos_of_ne_zero fun h => ?_
    rw [h] at hceil
    omega
  obtain ⟨q, hq⟩ := Nat.exists_eq_add_of_lt hpos
  rw [Nat.zero_add] at hq
  rw [hq, Nat.mul_succ] at hceil
  rw [hq]
  refine Nat.succ_le_succ ((ceilDiv_le_iff_le_mul hb).mpr ?_)
  omega

/-- What a round of waiting for a stop costs. -/
def roundPrice (price : Wait → Nat) : Nat :=
  price .pause + (price .permit + price (.reply statusRequest))

theorem spends_waitStopFrom (hc : c.Valid) (spent : Nat) :
    (waitStopFrom c hc spent).Spends c price
      ((c.responseTimeout.toNat - spent) ⌈/⌉ c.stopPoll.toNat * roundPrice price) := by
  -- The time that is left shrinks by a pause at least, whatever the other waits take.
  fun_induction waitStopFrom c hc spent with
  | case1 spent ih =>
    refine spends_session_bind fun s _ => ?_
    split
    · trivial
    split
    · trivial
    next ht =>
    have hpoll : 0 < c.stopPoll.toNat := Nat.pos_of_ne_zero fun h₀ =>
      (Config.valid_iff.mp hc).2.2.1 (UInt64.toNat_inj.mp (h₀.trans UInt64.toNat_zero.symm))
    have hrounds (pause : { elapsed : Nat // c.stopPoll.toNat ≤ elapsed }) (t₁ t₂ : Nat) :
        (c.responseTimeout.toNat - (spent + pause.val + t₁ + t₂)) ⌈/⌉ c.stopPoll.toNat + 1 ≤
          (c.responseTimeout.toNat - spent) ⌈/⌉ c.stopPoll.toNat := by
      have hpause := pause.property
      rw [Nat.add_assoc, Nat.add_assoc, Nat.sub_add_eq]
      exact ceilDiv_sub_succ_le hpoll (by omega) (by omega)
    obtain ⟨q, hq⟩ : ∃ q, (c.responseTimeout.toNat - spent) ⌈/⌉ c.stopPoll.toNat = q + 1 :=
      Nat.exists_eq_add_one.mpr
        (Nat.lt_of_lt_of_le (Nat.succ_pos _) (hrounds ⟨_, Nat.le_refl _⟩ 0 0))
    have hbudget : (q + 1) * roundPrice price = price .pause +
        (price .permit + (price (.reply statusRequest) + q * roundPrice price)) := by
      rw [Nat.succ_mul, roundPrice]
      omega
    rw [hq, hbudget]
    refine spends_bind (spends_sleep _) fun pause => ?_
    refine spends_bind_of_free spends_requireLink fun _ => ?_
    refine spends_bind spends_acquire fun t₁ => ?_
    refine spends_bind (spends_releasing spends_refresh) fun t₂ => ?_
    refine (ih ht pause t₁ t₂).mono (Nat.mul_le_mul_right _ ?_)
    have := hrounds pause t₁ t₂
    omega

theorem spends_waitStop : waitStop.Spends c price (c.looks * roundPrice price) := by
  refine spends_session_bind fun s hs => ?_
  subst hs
  exact spends_waitStopFrom s.valid 0

theorem spends_stop : stop.Spends c price
    (price .permit + price (.reply (Wire.Packet.bare Wire.Opcode.stop).encode) +
      c.looks * roundPrice price) := by
  refine spends_bind_of_free spends_requireLink fun _ => spends_session_bind fun s _ => ?_
  split
  · trivial
  · exact spends_bind (spends_command _) fun _ => spends_waitStop

/-- What a step costs at most. -/
def stepPrice (c : Config) (price : Wait → Nat) : Nat :=
  price .permit + price (.reply (Wire.Packet.bare Wire.Opcode.singleStep).encode) +
    (c.looks * roundPrice price + (price .permit + price (.reply (frameRequest 0).encode)))

theorem spends_singleStep : singleStep.Spends c price (stepPrice c price) := by
  refine spends_bind_of_free spends_requireLink fun _ => ?_
  refine spends_bind_of_free (show (act .stepping).Spends c price 0 from trivial) fun _ => ?_
  refine spends_bind (spends_command _) fun _ => ?_
  exact spends_bind spends_waitStop fun _ => spends_readFrame 0

theorem spends_stepFrom (start : StackFrame) (limit : UInt32) (n : Nat) :
    (stepFrom start limit n).Spends c price (n * stepPrice c price) := by
  induction n with
  | zero => trivial
  | succ n ih =>
    rw [Nat.succ_mul, Nat.add_comm (n * _)]
    refine spends_bind spends_singleStep fun frame => ?_
    split
    · trivial
    · exact ih

theorem spends_stepIn : stepIn.Spends c price
    (price .permit + price (.reply (frameRequest 0).encode) +
      c.maxSteps.toNat * stepPrice c price) := by
  refine spends_bind_of_free spends_requireLink fun _ => spends_session_bind fun s hs => ?_
  split
  · refine spends_bind spends_topFrame fun start => ?_
    rw [hs]
    exact spends_stepFrom start _ _
  · trivial

end Op

end RemoteDebug
