import RemoteDebug.Proofs.Simulated

/-!
# What operations end with, and when

The waits of a program report how long they took, and a request for the permit whether it was
granted. `Prog.watched` keeps a `Watch` on them and returns it with the value of the program. It has
the runs of the program and no others (`Runs.watched`, `Runs.of_watched`).

`Op.Ends c P w op Q` is a triple for the runs that are over. From a session with `P` and the watch
at `w`, every run of `op` that ends has `Q` of the watch at its end, of its result and of what it
leaves behind. The rules have the form of those for `Op.Keeps`, but they tell one failure from
another. The outcome of an exchange is all that the result of a command depends on
(`Op.ends_command`), or that of a look at the status (`Op.ends_refresh`), unless the connection is
lost. `Traced` is the assertion to follow a call with, by the exchanges that it has made.
-/

namespace RemoteDebug

variable {α β : Type}

/-! ## Watches -/

/-- What shows of the waits of a program from outside. -/
structure Watch where
  /-- The time that the waits took. -/
  elapsed : Nat
  /-- A permit was refused. -/
  refused : Bool
  deriving DecidableEq, Repr

namespace Watch

/-- Nothing was waited for. -/
def start : Watch := ⟨0, false⟩

/-- Time passes. -/
def pass (w : Watch) (t : Nat) : Watch := { w with elapsed := w.elapsed + t }

/-- Time passes, at the end of which a permit is granted or refused. -/
def answered (w : Watch) (t : Nat) (admitted : Bool) : Watch where
  elapsed := w.elapsed + t
  refused := if admitted then w.refused else true

end Watch

/-- The program, with a watch kept on its waits from `w` on. -/
def Prog.watched : Prog α → (w : Watch) → Prog (Watch × α)
  | .done a, w => .done (w, a)
  | .look k, w => .look fun s => (k s).watched w
  | .act a k, w => .act a (k.watched w)
  | .dial k, w => .dial fun o => (k o).watched w
  | .acquire k, w => .acquire fun t admitted => (k t admitted).watched (w.answered t admitted)
  | .exchange request k, w => .exchange request fun t o => (k t o).watched (w.pass t)
  | .release k, w => .release (k.watched w)
  | .sleep ms k, w => .sleep ms fun t ht => (k t ht).watched (w.pass t)

theorem Prog.watched_bind (p : Prog α) (f : α → Prog β) (w : Watch) :
    (p.bind f).watched w = (p.watched w).bind fun x => (f x.2).watched x.1 := by
  induction p generalizing w with
  | done a => rfl
  | look k ih => exact congrArg look (funext fun s => ih s w)
  | act a k ih => exact congrArg (act a) (ih w)
  | dial k ih => exact congrArg dial (funext fun o => ih o w)
  | acquire k ih => exact congrArg acquire (funext fun t => funext fun b => ih t b _)
  | exchange request k ih =>
    exact congrArg (exchange request) (funext fun t => funext fun o => ih t o _)
  | release k ih => exact congrArg release (ih w)
  | sleep ms k ih => exact congrArg (sleep ms) (funext fun t => funext fun ht => ih t ht _)

section

variable {c : Option Call} {p : Prog α} {s s' : Session} {l : History} {a : α} {w w' : Watch}

/-- A watch can be kept on every run. -/
theorem Runs.watched (h : Runs c p s l s' (some a)) (w : Watch) :
    ∃ w', Runs c (p.watched w) s l s' (some (w', a)) := by
  induction p generalizing s l w with
  | done b =>
    cases h
    exact ⟨w, .done _ _⟩
  | look k ih =>
    cases h with
    | look h =>
      obtain ⟨w', h⟩ := ih s h w
      exact ⟨w', .look h⟩
  | act b k ih =>
    cases h with
    | act h =>
      obtain ⟨w', h⟩ := ih h w
      exact ⟨w', .act h⟩
  | dial k ih =>
    cases h with
    | dial o h =>
      obtain ⟨w', h⟩ := ih o h w
      exact ⟨w', .dial o h⟩
  | acquire k ih =>
    cases h with
    | acquire t admitted hb h =>
      obtain ⟨w', h⟩ := ih t admitted h (w.answered t admitted)
      exact ⟨w', .acquire t admitted hb h⟩
  | exchange request k ih =>
    cases h with
    | exchange t o hb h =>
      obtain ⟨w', h⟩ := ih t o h (w.pass t)
      exact ⟨w', .exchange t o hb h⟩
  | release k ih =>
    cases h with
    | release h =>
      obtain ⟨w', h⟩ := ih h w
      exact ⟨w', .release h⟩
  | sleep ms k ih =>
    cases h with
    | sleep t ht hb h =>
      obtain ⟨w', h⟩ := ih t ht h (w.pass t)
      exact ⟨w', .sleep t ht hb h⟩

/-- The watch adds no runs. -/
theorem Runs.of_watched (h : Runs c (p.watched w) s l s' (some (w', a))) :
    Runs c p s l s' (some a) := by
  induction p generalizing s l w with
  | done b =>
    cases h
    exact .done _ _
  | look k ih =>
    cases h with
    | look h => exact .look (ih s h)
  | act b k ih =>
    cases h with
    | act h => exact .act (ih h)
  | dial k ih =>
    cases h with
    | dial o h => exact .dial o (ih o h)
  | acquire k ih =>
    cases h with
    | acquire t admitted hb h => exact .acquire t admitted hb (ih t admitted h)
  | exchange request k ih =>
    cases h with
    | exchange t o hb h => exact .exchange t o hb (ih t o h)
  | release k ih =>
    cases h with
    | release h => exact .release (ih h)
  | sleep ms k ih =>
    cases h with
    | sleep t ht hb h => exact .sleep t ht hb (ih t ht h)

end

/-! ## Results -/

namespace Op

/-- From `P` and the watch at `w`, every run of the operation that ends has `Q` of the watch at its
end and of its result. -/
def Ends (c : Option Call) (P : Assertion) (w : Watch) (op : Op α)
    (Q : Watch → Except Failure α → Assertion) : Prop :=
  Meets c (fun _ _ => True) P (op.run.watched w) fun x => Q x.1 x.2

variable {c : Option Call} {P : Assertion} {w : Watch} {Q : Watch → Except Failure α → Assertion}

theorem Ends.mono {P' : Assertion} {op : Op α} {Q' : Watch → Except Failure α → Assertion}
    (h : op.Ends c P w Q) (hP : ∀ {h s}, P' h s → P h s)
    (hQ : ∀ {v r h s}, Q v r h s → Q' v r h s) : op.Ends c P' w Q' :=
  Meets.mono h hP hQ

/-- What does not depend on the session may be taken out of a precondition. -/
theorem ends_of_imp {φ : Prop} {op : Op α} (h : φ → op.Ends c P w Q) :
    op.Ends c (fun h s => φ ∧ P h s) w Q :=
  fun _ _ _ _ _ hp => h hp.1 hp.2

theorem ends_of_exists {ι : Type} {P : ι → Assertion} {op : Op α}
    (h : ∀ i, op.Ends c (P i) w Q) : op.Ends c (fun h s => ∃ i, P i h s) w Q :=
  fun _ _ _ _ _ ⟨i, hp⟩ => h i hp

theorem ends_pure {a : α} (hQ : ∀ {h s}, P h s → Q w (.ok a) h s) :
    Ends c P w (pure a : Op α) Q :=
  meets_done hQ

theorem ends_throw {e : Failure} (hQ : ∀ {h s}, P h s → Q w (.error e) h s) :
    Ends c P w (throw e : Op α) Q :=
  meets_done hQ

theorem ends_bind {R : Watch → Except Failure β → Assertion} {op : Op β} {f : β → Op α}
    (hop : op.Ends c P w R) (he : ∀ {v e h s}, R v (.error e) h s → Q v (.error e) h s)
    (hf : ∀ v b, (f b).Ends c (R v (.ok b)) v Q) : (op >>= f).Ends c P w Q := by
  change Meets c _ P (Prog.watched (Prog.bind op.run _) w) _
  rw [Prog.watched_bind]
  refine meets_bind hop fun x => ?_
  rcases x with ⟨v, e | b⟩
  · exact meets_done he
  · exact hf v b

/-- A look at the session is carried on with the session known. -/
theorem ends_session_bind {f : Session → Op α}
    (hf : ∀ s₀, (f s₀).Ends c (fun h s => P h s ∧ s = s₀) w Q) :
    (session >>= f).Ends c P w Q :=
  meets_look hf

theorem ends_act_bind {R : Assertion} {a : Act} {f : Unit → Op α}
    (ha : ∀ {h s}, P h s → R (h ++ [⟨c, s, .acted a⟩]) (s.apply a))
    (hf : (f ()).Ends c R w Q) : (act a >>= f).Ends c P w Q :=
  meets_act ha hf

/-- A pure step is carried on with its value known. -/
theorem ends_ofExcept_bind {ε : Type} {g : ε → Failure} {x : Except ε β} {f : β → Op α}
    (he : ∀ {e h s}, x = .error e → P h s → Q w (.error (g e)) h s)
    (hf : ∀ b, x = .ok b → (f b).Ends c P w Q) : (ofExcept g x >>= f).Ends c P w Q := by
  cases x with
  | error e => exact ends_throw (he rfl)
  | ok b => exact hf b rfl

theorem ends_requireLink_bind {f : Unit → Op α}
    (he : ∀ {h s}, P h s → s.isConnected = false → Q w (.error .notConnected) h s)
    (hf : (f ()).Ends c (fun h s => P h s ∧ s.isConnected = true) w Q) :
    (requireLink >>= f).Ends c P w Q := by
  refine ends_bind (R := fun v r h s => v = w ∧ P h s ∧ match r with
    | .ok _ => s.isConnected = true
    | .error e => s.isConnected = false ∧ e = .notConnected) ?_ ?_ ?_
  · refine ends_session_bind fun s₀ => ?_
    by_cases hs : s₀.isConnected
    · rw [if_pos hs]
      exact ends_pure fun ⟨hp, he⟩ => ⟨rfl, hp, he ▸ hs⟩
    · rw [if_neg hs]
      exact ends_throw fun ⟨hp, he⟩ => ⟨rfl, hp, he ▸ (Bool.not_eq_true _).mp hs, rfl⟩
  · rintro v e h s ⟨rfl, hp, hs, rfl⟩
    exact he hp hs
  · intro v _
    refine ends_of_imp ?_
    rintro rfl
    exact hf

theorem ends_sleep_bind {ms : Nat} {f : { elapsed : Nat // ms ≤ elapsed } → Op α} (hP : Stable P)
    (hf : ∀ pause, (f pause).Ends c P (w.pass pause.val) Q) : (sleep ms >>= f).Ends c P w Q :=
  meets_sleep hP (fun _ => trivial) fun t ht => hf ⟨t, ht⟩

theorem ends_acquire_bind {f : Nat → Op α} (hP : Stable P)
    (he : ∀ {t h s}, P h s → Q (w.answered t false) (.error .connectionClosed) h s)
    (hf : ∀ t, (f t).Ends c P (w.pass t) Q) : (acquire >>= f).Ends c P w Q := by
  refine meets_acquire hP (fun _ => trivial) fun t admitted => ?_
  cases admitted with
  | false => exact meets_done he
  | true => exact hf t

theorem ends_releasing {op : Op α} (h : op.Ends c P w Q) : (releasing op).Ends c P w Q := by
  change Meets c _ P (Prog.watched (Prog.bind op.run _) w) _
  rw [Prog.watched_bind]
  exact meets_bind h fun _ => meets_release (meets_done id)

end Op

/-! ## Exchanges -/

/-- The connection is gone : a permit was refused, or the session has none. -/
def Watch.Lost (w : Watch) (s : Session) : Prop := w.refused = true ∨ s.isConnected = false

/-- The status that the outcome of a request for it reports. -/
def Outcome.status (timeout : UInt64) (o : Outcome) : Except Failure Status :=
  o.reply? Wire.Opcode.readStatus timeout >>= Op.statusIn

namespace Op

variable {c : Option Call} {P P' : Assertion} {w : Watch} {timeout : UInt64}

/-- An exchange sends its request once and ends with an outcome, unless there is no connection. -/
theorem ends_exchange {Q : Watch → Except Failure (Nat × Bytes) → Assertion} {request : Bytes}
    (hT : ∀ {h s}, P h s → s.config.responseTimeout = timeout)
    (hlost : ∀ {h s}, P h s → w.Lost s → Q w (.error .connectionClosed) h s)
    (hsent : ∀ {h s}, P h s → P' (h ++ [⟨c, s, .sent request⟩]) s) (hP' : Stable P')
    (hended : ∀ {t o h s}, P' h s → Q (w.pass t) ((t, ·) <$> o.reply? (request.headD 0) timeout)
      (h ++ [⟨c, s, .ended request o⟩]) s) :
    (exchange request).Ends c P w Q := by
  refine ends_session_bind fun s₀ => ?_
  by_cases hs : s₀.isConnected
  · rw [if_pos hs]
    intro h s l s' r hp hr
    obtain ⟨hp, rfl⟩ := hp
    refine meets_exchange (R := fun o h s => ∀ t, Q (w.pass t)
      ((t, ·) <$> o.reply? (request.headD 0) timeout) h s) hsent hP' (fun _ => trivial)
      (fun hp t => hended hp) (fun t o => ?_) hp hr
    rw [hT hp]
    exact meets_done fun hq => hq t
  · rw [if_neg hs]
    exact ends_throw fun ⟨hp, he⟩ => hlost hp (Or.inr (he ▸ (Bool.not_eq_true _).mp hs))

/-- A command sends its request once and ends with the answer, unless the connection is lost before
it can. -/
theorem ends_command {Q : Watch → Except Failure Wire.Reply → Assertion} {p : Wire.Packet}
    (hP : Stable P) (hT : ∀ {h s}, P h s → s.config.responseTimeout = timeout)
    (hlost : ∀ {v h s}, P h s → v.Lost s → Q v (.error .connectionClosed) h s)
    (hsent : ∀ {h s}, P h s → P' (h ++ [⟨c, s, .sent p.encode⟩]) s) (hP' : Stable P')
    (hended : ∀ {v o h s}, P' h s →
      Q v (o.answer p.opcode timeout) (h ++ [⟨c, s, .ended p.encode o⟩]) s) :
    (command p).Ends c P w Q := by
  -- What the reply comes to is settled when the exchange ends.
  refine ends_bind (R := fun v r h s => Q v (r >>= replyTo p.opcode) h s) ?_ id fun v bytes => ?_
  · refine ends_acquire_bind hP (fun hp => hlost hp (Or.inl rfl)) fun t => ?_
    refine ends_bind (R := fun v r h s => Q v ((·.2) <$> r >>= replyTo p.opcode) h s)
      (ends_releasing (ends_exchange hT hlost hsent hP' ?_)) id fun v r => ends_pure id
    intro u o h s hp
    have hq := hended (v := (w.pass t).pass u) (o := o) hp
    cases o <;> exact hq
  · cases hr : replyTo p.opcode bytes with
    | error e =>
      refine ends_throw fun {h s} hq => ?_
      change Q v (replyTo p.opcode bytes) h s at hq
      rwa [hr] at hq
    | ok reply =>
      refine ends_pure fun {h s} hq => ?_
      change Q v (replyTo p.opcode bytes) h s at hq
      rwa [hr] at hq

/-- A look at the status of the device takes it in, or ends with the failure of the exchange. -/
theorem ends_refresh {Q : Watch → Except Failure Nat → Assertion}
    (hT : ∀ {h s}, P h s → s.config.responseTimeout = timeout)
    (hlost : ∀ {h s}, P h s → w.Lost s → Q w (.error .connectionClosed) h s)
    (hsent : ∀ {h s}, P h s → P' (h ++ [⟨c, s, .sent statusRequest⟩]) s) (hP' : Stable P')
    (hfailed : ∀ {t o e h s}, P' h s → o.status timeout = .error e →
      Q (w.pass t) (.error e) (h ++ [⟨c, s, .ended statusRequest o⟩]) s)
    (hread : ∀ {t o status h s}, P' h s → o.status timeout = .ok status →
      Q (w.pass t) (.ok t)
        (h ++ [⟨c, s, .ended statusRequest o⟩, ⟨c, s, .acted (.reading status)⟩])
        (s.apply (.reading status))) :
    refresh.Ends c P w Q := by
  refine ends_bind (R := fun v r h s => match r with
    | .error e => Q v (.error e) h s
    | .ok (t, bytes) => match statusIn bytes with
      | .error e => Q v (.error e) h s
      | .ok status => Q v (.ok t) (h ++ [⟨c, s, .acted (.reading status)⟩])
          (s.apply (.reading status))) (ends_exchange hT hlost hsent hP' ?_) id ?_
  · intro t o h s hp
    cases o with
    | reply bytes =>
      change match statusIn bytes with
        | .error e => _
        | .ok status => _
      cases hs : statusIn bytes with
      | error e => exact hfailed hp hs
      | ok status => simpa using hread (t := t) (o := .reply bytes) hp hs
    | silence => exact hfailed hp rfl
    | closed => exact hfailed hp rfl
    | broken fault => exact hfailed hp rfl
  · rintro v ⟨t, bytes⟩
    dsimp only
    cases statusIn bytes with
    | error e => exact ends_throw id
    | ok status => exact ends_act_bind id (ends_pure id)

end Op

/-! ## Traces -/

/-- What readings and the loss of the device leave alone. -/
structure Lasts (F : Session → Prop) : Prop where
  reading : ∀ {s} status, F s → F (s.apply (.reading status))
  lost : ∀ {s} cause, F s → F (s.apply (.lost cause))

/-- The call has made the exchanges `x`, and the session has `F`. -/
def Traced (call : Call) (F : Session → Prop) (x : List (Bytes × Outcome)) : Assertion := fun h s =>
  outcomesIn (some call) h = x ∧ F s

section

variable {call : Call} {F : Session → Prop} {x : List (Bytes × Outcome)} {h : History}
  {s : Session}

theorem Traced.stable (hF : Lasts F) : Stable (Traced call F x) := by
  intro h s b s' hh hb
  refine ⟨?_, Stable.of_session hF.reading hF.lost (h := []) hh.2 hb⟩
  rw [outcomesIn_append, hb.outcomesIn_eq_nil, List.append_nil]
  exact hh.1

theorem Traced.sent (hh : Traced call F x h s) (request : Bytes) :
    Traced call F x (h ++ [⟨some call, s, .sent request⟩]) s := by
  refine ⟨?_, hh.2⟩
  rw [outcomesIn_append, hh.1]
  exact List.append_nil x

theorem Traced.ended (hh : Traced call F x h s) (request : Bytes) (o : Outcome) :
    Traced call F (x ++ [(request, o)]) (h ++ [⟨some call, s, .ended request o⟩]) s := by
  refine ⟨?_, hh.2⟩
  rw [outcomesIn_append, hh.1, outcomesIn_ended]
  rfl

theorem Traced.acted {F' : Session → Prop} (hh : Traced call F x h s) {a : Act}
    (hF : F s → F' (s.apply a)) :
    Traced call F' x (h ++ [⟨some call, s, .acted a⟩]) (s.apply a) := by
  refine ⟨?_, hF hh.2⟩
  rw [outcomesIn_append, hh.1]
  exact List.append_nil x

/-- A command makes one exchange, unless the connection is lost before it can. -/
theorem Op.ends_command_traced {w : Watch} {timeout : UInt64} (p : Wire.Packet) (hF : Lasts F)
    (hT : ∀ {s}, F s → s.config.responseTimeout = timeout) :
    (Op.command p).Ends (some call) (Traced call F x) w fun v r h s =>
      (Traced call F x h s ∧ r = .error .connectionClosed ∧ v.Lost s) ∨
      ∃ o, r = o.answer p.opcode timeout ∧ Traced call F (x ++ [(p.encode, o)]) h s := by
  have hstable : Stable (Traced call F x) := Traced.stable hF
  refine Op.ends_command hstable (fun hx => hT hx.2) (fun hx hlost => Or.inl ⟨hx, rfl, hlost⟩)
    (fun hx => hx.sent _) hstable ?_
  exact fun {v o h s} hx => Or.inr ⟨o, rfl, hx.ended _ o⟩

end

end RemoteDebug
