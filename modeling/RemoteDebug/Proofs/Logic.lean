import RemoteDebug.Proofs.Run

/-!
# Assertions about runs

`Meets c I P p Q` is a triple for programs that are not alone : from a session with `P`, every run
of `p` in the call `c` has `I` wherever it waits, and `Q` of its value when it ends. `Op.Keeps` is
the same for operations, where `Q` is about success and a failure has to leave `I` behind. A
precondition that has to outlast a wait must be `Stable`.

There is one rule for each node of a program, and the rules for operations follow from these. What a
call does to a session is then shown without looking at its runs again, and what holds of every
session that calls lead to follows by `Reaches.keeps`.
-/

namespace RemoteDebug

/-- A statement about a session and what has happened to it. -/
abbrev Assertion := History → Session → Prop

/-- What goes on in the background leaves `P` true. -/
def Stable (P : Assertion) : Prop :=
  ∀ ⦃h : History⦄ ⦃s : Session⦄ ⦃b : History⦄ ⦃s' : Session⦄, P h s → Idle s b s' → P (h ++ b) s'

theorem Stable.of_stirs {P : Assertion}
    (hP : ∀ {h : History} {s : Session} {l : History} {s' : Session},
      P h s → Stirs s l s' → P (h ++ l) s') : Stable P := by
  intro h s b s' hp hb
  induction hb generalizing h with
  | nil s => simpa using hp
  | cons hs _ ih =>
    have := ih (hP hp hs)
    rwa [List.append_assoc] at this

theorem Stable.and {P Q : Assertion} (hP : Stable P) (hQ : Stable Q) :
    Stable fun h s => P h s ∧ Q h s :=
  fun _ _ _ _ h hb => ⟨hP h.1 hb, hQ h.2 hb⟩

/-- What readings and the loss of the device leave alone is stable. -/
theorem Stable.of_session {P : Session → Prop}
    (hread : ∀ {s} status, P s → P (s.apply (.reading status)))
    (hlost : ∀ {s} cause, P s → P (s.apply (.lost cause))) : Stable fun _ s => P s := by
  refine Stable.of_stirs fun {h s l s'} hp hl => ?_
  cases hl with
  | asks => exact hp
  | misses => exact hp
  | reads => exact hread _ hp
  | loses cause => exact hlost cause hp

/-- What holds of every moment of the background is stable. -/
theorem Stable.of_moments {P : Moment → Prop}
    (hP : ∀ {s : Session} {l : History} {s' : Session}, Stirs s l s' → ∀ m ∈ l, P m) :
    Stable fun h _ => ∀ m ∈ h, P m :=
  Stable.of_stirs fun hh hl => List.forall_mem_append.mpr ⟨hh, hP hl⟩

/-- The background leaves the breakpoints and the configuration alone. -/
theorem Idle.keeps {s s' : Session} {b : History} (h : Idle s b s') :
    s'.breakpoints = s.breakpoints ∧ s'.config = s.config := by
  have hstable : Stable fun _ s' => s'.breakpoints = s.breakpoints ∧ s'.config = s.config := by
    refine Stable.of_session (fun _ hs => hs) fun cause hs => ?_
    simp only [Session.apply]
    split <;> exact hs
  exact hstable (h := []) ⟨rfl, rfl⟩ h

/-! ## Programs -/

/-- From `P`, the program has `I` wherever it waits and `Q` of its value when it ends. -/
def Meets {α : Type} (c : Option Call) (I P : Assertion) (p : Prog α) (Q : α → Assertion) : Prop :=
  ∀ ⦃h : History⦄ ⦃s : Session⦄ ⦃l : History⦄ ⦃s' : Session⦄ ⦃r : Option α⦄,
    P h s → Runs c p s l s' r → r.elim (I (h ++ l) s') fun a => Q a (h ++ l) s'

section Programs

variable {α β : Type} {c : Option Call} {I P : Assertion}

theorem meets_done {a : α} {Q : α → Assertion} (hQ : ∀ {h s}, P h s → Q a h s) :
    Meets c I P (.done a) Q := by
  intro h s l s' r hp hr
  cases hr
  simpa using hQ hp

theorem meets_look {k : Session → Prog α} {Q : α → Assertion}
    (hk : ∀ s₀, Meets c I (fun h s => P h s ∧ s = s₀) (k s₀) Q) : Meets c I P (.look k) Q := by
  intro h s l s' r hp hr
  cases hr with
  | look hr => exact hk s ⟨hp, rfl⟩ hr

theorem meets_act {P' : Assertion} {a : Act} {k : Prog α} {Q : α → Assertion}
    (ha : ∀ {h s}, P h s → P' (h ++ [⟨c, s, .acted a⟩]) (s.apply a)) (hk : Meets c I P' k Q) :
    Meets c I P (.act a k) Q := by
  intro h s l s' r hp hr
  cases hr with
  | act hr => simpa using hk (ha hp) hr

theorem meets_dial {k : Except Fault Unit → Prog α} {Q : α → Assertion}
    (hI : ∀ {h s}, P h s → I h s) (hk : ∀ o, Meets c I P (k o) Q) : Meets c I P (.dial k) Q := by
  intro h s l s' r hp hr
  cases hr with
  | dialing => simpa using hI hp
  | dial o hr => exact hk o hp hr

theorem meets_acquire {k : Nat → Bool → Prog α} {Q : α → Assertion} (hP : Stable P)
    (hI : ∀ {h s}, P h s → I h s) (hk : ∀ t admitted, Meets c I P (k t admitted) Q) :
    Meets c I P (.acquire k) Q := by
  intro h s l s' r hp hr
  cases hr with
  | acquiring _ hb => exact hI (hP hp hb)
  | acquire t admitted hb hr => simpa using hk t admitted (hP hp hb) hr

theorem meets_exchange {P' : Assertion} {request : Bytes} {k : Nat → Outcome → Prog α}
    {R : Outcome → Assertion} {Q : α → Assertion}
    (hsent : ∀ {h s}, P h s → P' (h ++ [⟨c, s, .sent request⟩]) s) (hP' : Stable P')
    (hI : ∀ {h s}, P' h s → I h s)
    (hended : ∀ {h s o}, P' h s → R o (h ++ [⟨c, s, .ended request o⟩]) s)
    (hk : ∀ t o, Meets c I (R o) (k t o) Q) : Meets c I P (.exchange request k) Q := by
  intro h s l s' r hp hr
  cases hr with
  | exchanging _ hb => simpa using hI (hP' (hsent hp) hb)
  | exchange t o hb hr => simpa using hk t o (hended (hP' (hsent hp) hb)) hr

theorem meets_release {k : Prog α} {Q : α → Assertion} (hk : Meets c I P k Q) :
    Meets c I P (.release k) Q := by
  intro h s l s' r hp hr
  cases hr with
  | release hr => exact hk hp hr

theorem meets_sleep {ms : Nat} {k : (t : Nat) → ms ≤ t → Prog α} {Q : α → Assertion}
    (hP : Stable P) (hI : ∀ {h s}, P h s → I h s) (hk : ∀ t ht, Meets c I P (k t ht) Q) :
    Meets c I P (.sleep ms k) Q := by
  intro h s l s' r hp hr
  cases hr with
  | sleeping _ hb => exact hI (hP hp hb)
  | sleep t ht hb hr => simpa using hk t ht (hP hp hb) hr

theorem meets_bind {R : α → Assertion} {p : Prog α} {f : α → Prog β} {Q : β → Assertion}
    (hp : Meets c I P p R) (hf : ∀ a, Meets c I (R a) (f a) Q) : Meets c I P (p.bind f) Q := by
  intro h s l s' r hs hr
  rcases hr.of_bind with ⟨rfl, h₁⟩ | ⟨a, s₁, l₁, l₂, rfl, h₁, h₂⟩
  · exact hp hs h₁
  · simpa using hf a (hp hs h₁) h₂

theorem Meets.mono {P' : Assertion} {p : Prog α} {Q Q' : α → Assertion} (h : Meets c I P p Q)
    (hP : ∀ {h s}, P' h s → P h s) (hQ : ∀ {a h s}, Q a h s → Q' a h s) :
    Meets c I P' p Q' := by
  intro h' s l s' r hs hr
  have := h (hP hs) hr
  cases r with
  | none => exact this
  | some a => exact hQ this

end Programs

/-! ## Operations -/

namespace Op

/-- From `P`, the operation has `I` wherever it waits and when it fails, and `Q` of its value when
it succeeds. -/
def Keeps {α : Type} (c : Option Call) (I P : Assertion) (op : Op α) (Q : α → Assertion) : Prop :=
  Meets c I P op.run fun
    | .ok a => Q a
    | .error _ => I

variable {α β : Type} {c : Option Call} {I P : Assertion}

theorem Keeps.mono {P' : Assertion} {op : Op α} {Q Q' : α → Assertion} (h : Keeps c I P op Q)
    (hP : ∀ {h s}, P' h s → P h s) (hQ : ∀ {a h s}, Q a h s → Q' a h s) :
    Keeps c I P' op Q' := by
  refine Meets.mono h hP ?_
  intro r h s hr
  cases r with
  | error e => exact hr
  | ok a => exact hQ hr

theorem Keeps.weaken {J : Assertion} {op : Op α} {Q : α → Assertion} (h : Keeps c I P op Q)
    (hJ : ∀ {h s}, I h s → J h s) : Keeps c J P op Q := by
  intro h' s l s' r hs hr
  have := h hs hr
  rcases r with _ | _ | a
  · exact hJ this
  · exact hJ this
  · exact this

theorem keeps_pure {a : α} {Q : α → Assertion} (hQ : ∀ {h s}, P h s → Q a h s) :
    Keeps c I P (pure a : Op α) Q :=
  meets_done hQ

theorem keeps_throw {e : Failure} {Q : α → Assertion} (hI : ∀ {h s}, P h s → I h s) :
    Keeps c I P (throw e : Op α) Q :=
  meets_done hI

theorem keeps_bind {R : α → Assertion} {op : Op α} {f : α → Op β} {Q : β → Assertion}
    (hop : Keeps c I P op R) (hf : ∀ a, Keeps c I (R a) (f a) Q) : Keeps c I P (op >>= f) Q := by
  refine meets_bind hop fun r => ?_
  cases r with
  | error e => exact meets_done id
  | ok a => exact hf a

theorem keeps_session {Q : Session → Assertion} (hQ : ∀ {h s}, P h s → Q s h s) :
    Keeps c I P session Q :=
  meets_look fun _ => meets_done fun ⟨hp, hs⟩ => hs ▸ hQ hp

theorem keeps_act {a : Act} {Q : Unit → Assertion}
    (hQ : ∀ {h s}, P h s → Q () (h ++ [⟨c, s, .acted a⟩]) (s.apply a)) : Keeps c I P (act a) Q :=
  meets_act hQ (meets_done id)

theorem keeps_ofExcept {ε : Type} {f : ε → Failure} {e : Except ε α} {Q : α → Assertion}
    (hI : ∀ {h s}, P h s → I h s) (hQ : ∀ {a h s}, e = .ok a → P h s → Q a h s) :
    Keeps c I P (ofExcept f e) Q := by
  cases e with
  | error e => exact keeps_throw hI
  | ok a => exact keeps_pure (hQ rfl)

/-- A pure step is carried on with its value known. -/
theorem keeps_ofExcept_bind {ε : Type} {g : ε → Failure} {e : Except ε α} {f : α → Op β}
    {Q : β → Assertion} (hI : ∀ {h s}, P h s → I h s)
    (hf : ∀ a, e = .ok a → Keeps c I P (f a) Q) : Keeps c I P (ofExcept g e >>= f) Q := by
  cases e with
  | error e => exact keeps_throw hI
  | ok a => exact hf a rfl

/-- A look at the session is carried on with the session known. -/
theorem keeps_session_bind {f : Session → Op β} {Q : β → Assertion}
    (hf : ∀ s₀, Keeps c I (fun h s => P h s ∧ s = s₀) (f s₀) Q) :
    Keeps c I P (session >>= f) Q :=
  keeps_bind (keeps_session fun hp => ⟨hp, rfl⟩) hf

theorem keeps_acquire (hP : Stable P) (hI : ∀ {h s}, P h s → I h s) :
    Keeps c I P acquire fun _ => P := by
  refine meets_acquire hP hI fun t admitted => meets_done fun {h s} hp => ?_
  cases admitted with
  | false => exact hI hp
  | true => exact hp

theorem keeps_releasing {op : Op α} {Q : α → Assertion} (h : Keeps c I P op Q) :
    Keeps c I P (releasing op) Q :=
  meets_bind h fun _ => meets_release (meets_done id)

theorem keeps_requireLink (hI : ∀ {h s}, P h s → I h s) :
    Keeps c I P requireLink fun _ h s => P h s ∧ s.isConnected := by
  refine keeps_bind (keeps_session (Q := fun s₀ h s => P h s ∧ s = s₀) fun hp => ⟨hp, rfl⟩) ?_
  intro s₀
  by_cases hs : s₀.isConnected
  · rw [if_pos hs]
    exact keeps_pure fun ⟨hp, he⟩ => ⟨hp, he ▸ hs⟩
  · rw [if_neg hs]
    exact keeps_throw fun ⟨hp, _⟩ => hI hp

theorem keeps_exchange {P' : Assertion} {request : Bytes} {Q : Nat × Bytes → Assertion}
    (hPI : ∀ {h s}, P h s → I h s)
    (hsent : ∀ {h s}, P h s → P' (h ++ [⟨c, s, .sent request⟩]) s) (hP' : Stable P')
    (hI : ∀ {h s}, P' h s → I h s)
    (hreply : ∀ {h s t bytes}, P' h s →
      Q (t, bytes) (h ++ [⟨c, s, .ended request (.reply bytes)⟩]) s)
    (hfail : ∀ {h s o}, P' h s → (∀ bytes, o ≠ .reply bytes) →
      I (h ++ [⟨c, s, .ended request o⟩]) s) :
    Keeps c I P (exchange request) Q := by
  refine keeps_bind (keeps_session (Q := fun _ => P) id) fun s₀ => ?_
  by_cases hs : s₀.isConnected
  · rw [if_pos hs]
    refine meets_exchange (R := fun o h s => match o with
      | .reply bytes => ∀ t, Q (t, bytes) h s
      | _ => I h s) hsent hP' hI ?_ ?_
    · intro h s o hp
      cases o with
      | reply bytes => exact fun t => hreply hp
      | silence => exact hfail hp (by simp)
      | closed => exact hfail hp (by simp)
      | broken fault => exact hfail hp (by simp)
    · intro t o
      cases o with
      | reply bytes => exact meets_done fun hq => hq t
      | silence => exact meets_done id
      | closed => exact meets_done id
      | broken fault => exact meets_done id
  · rw [if_neg hs]
    exact keeps_throw hPI

theorem keeps_send {P' : Assertion} {request : Bytes} {Q : Bytes → Assertion} (hP : Stable P)
    (hPI : ∀ {h s}, P h s → I h s)
    (hsent : ∀ {h s}, P h s → P' (h ++ [⟨c, s, .sent request⟩]) s) (hP' : Stable P')
    (hI : ∀ {h s}, P' h s → I h s)
    (hreply : ∀ {h s bytes}, P' h s → Q bytes (h ++ [⟨c, s, .ended request (.reply bytes)⟩]) s)
    (hfail : ∀ {h s o}, P' h s → (∀ bytes, o ≠ .reply bytes) →
      I (h ++ [⟨c, s, .ended request o⟩]) s) :
    Keeps c I P (send request) Q := by
  refine keeps_bind (keeps_acquire hP hPI) fun _ => ?_
  refine keeps_bind (keeps_releasing
    (keeps_exchange (Q := fun r => Q r.2) hPI hsent hP' hI hreply hfail)) ?_
  rintro ⟨t, bytes⟩
  exact keeps_pure id

end Op

/-! ## Commands -/

/-- The outcome of an exchange in which a command with opcode `op` succeeds. -/
def Outcome.accepted (op : Wire.Opcode) : Outcome → Bool
  | .reply bytes => (Op.replyTo op bytes).isOk
  | _ => false

/-- What a command with opcode `op` comes to whose exchange ends so. -/
def Outcome.answer (op : Wire.Opcode) (timeout : UInt64) (o : Outcome) :
    Except Failure Wire.Reply :=
  o.reply? op timeout >>= Op.replyTo op

theorem Outcome.accepted_eq (op : Wire.Opcode) (timeout : UInt64) (o : Outcome) :
    o.accepted op = (o.answer op timeout).isOk := by
  cases o <;> rfl

namespace Op

variable {c : Option Call} {I P : Assertion}

/-- A command asks once, and succeeds exactly when the outcome is accepted. -/
theorem keeps_command {P' : Assertion} {p : Wire.Packet} {Q : Wire.Reply → Assertion}
    (hP : Stable P) (hPI : ∀ {h s}, P h s → I h s)
    (hsent : ∀ {h s}, P h s → P' (h ++ [⟨c, s, .sent p.encode⟩]) s) (hP' : Stable P')
    (hI : ∀ {h s}, P' h s → I h s)
    (hok : ∀ {h s bytes reply}, P' h s → replyTo p.opcode bytes = .ok reply →
      Q reply (h ++ [⟨c, s, .ended p.encode (.reply bytes)⟩]) s)
    (hfail : ∀ {h s o}, P' h s → o.accepted p.opcode = false →
      I (h ++ [⟨c, s, .ended p.encode o⟩]) s) :
    Keeps c I P (command p) Q := by
  refine keeps_bind (R := fun bytes h s => match replyTo p.opcode bytes with
    | .ok reply => Q reply h s
    | .error _ => I h s) (keeps_send hP hPI hsent hP' hI ?_ ?_) ?_
  · intro h s bytes hp
    cases hr : replyTo p.opcode bytes with
    | ok reply => exact hok hp hr
    | error e => exact hfail hp (by simp [Outcome.accepted, hr, Except.isOk, Except.toBool])
  · intro h s o hp ho
    refine hfail hp ?_
    cases o with
    | reply bytes => exact absurd rfl (ho bytes)
    | silence => rfl
    | closed => rfl
    | broken fault => rfl
  · intro bytes
    cases hr : replyTo p.opcode bytes with
    | ok reply => exact keeps_pure id
    | error e => exact keeps_throw id

end Op

/-! ## Reachable sessions -/

theorem Op.Keeps.program {α : Type} {c : Option Call} {I : Assertion} {op : Op α}
    (h : op.Keeps c I I fun _ => I) : Meets c I I op.program fun _ => I := by
  refine meets_bind h fun r => meets_done ?_
  cases r with
  | error e => exact id
  | ok a => exact id

/-- What holds at the start and is kept by the background and by every call holds of every session
that calls lead to. -/
theorem Reaches.keeps {allowed : Call → Prop} {start : Session} {I : Assertion} (h₀ : I [] start)
    (hI : Stable I) (hc : ∀ c, allowed c → Meets (some c) I I c.program fun _ => I) {h : History}
    {s : Session} (hr : Reaches allowed start h s) : I h s := by
  induction hr with
  | refl => exact h₀
  | @call h l s s' r _ c ha hl ih =>
    have := hc c ha ih hl
    cases r with
    | none => exact this
    | some _ => exact this
  | idle _ hb ih => exact hI ih hb

end RemoteDebug
