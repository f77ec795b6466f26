import RemoteDebug.Proofs.Logic

/-!
# What operations do at most

`Op.Built A R op` says what `op` is put together from : acts in `A`, requests in `R` that are each
sent behind the permit, and waits. There is one lemma for each operation, which lists its acts and
its requests.

`Prog.Only A R p` says that `p` changes the session by acts in `A` only and sends requests in `R`
only, whatever it is answered. What is built from such acts and requests does (`Op.Built.only`), and
an assertion that these leave alone is kept by it (`Prog.Only.meets`).
-/

namespace RemoteDebug

/-- The program acts within `A` and sends requests within `R`. -/
def Prog.Only {α : Type} (A : Act → Prop) (R : Bytes → Prop) : Prog α → Prop
  | .done _ => True
  | .look k => ∀ s, (k s).Only A R
  | .act a k => A a ∧ k.Only A R
  | .dial k => ∀ o, (k o).Only A R
  | .acquire k => ∀ t admitted, (k t admitted).Only A R
  | .exchange request k => R request ∧ ∀ t o, (k t o).Only A R
  | .release k => k.Only A R
  | .sleep _ k => ∀ t ht, (k t ht).Only A R

/-- The operation acts within `A` and sends requests within `R`. -/
def Op.Only {α : Type} (A : Act → Prop) (R : Bytes → Prop) (op : Op α) : Prop :=
  Prog.Only A R op.run

variable {α β : Type} {A : Act → Prop} {R : Bytes → Prop}

theorem Prog.Only.bind {p : Prog α} {f : α → Prog β} (hp : p.Only A R)
    (hf : ∀ a, (f a).Only A R) : (p.bind f).Only A R := by
  induction p with
  | done a => exact hf a
  | look k ih => exact fun s => ih s (hp s)
  | act a k ih => exact ⟨hp.1, ih hp.2⟩
  | dial k ih => exact fun o => ih o (hp o)
  | acquire k ih => exact fun t admitted => ih t admitted (hp t admitted)
  | exchange request k ih => exact ⟨hp.1, fun t o => ih t o (hp.2 t o)⟩
  | release k ih => exact ih hp
  | sleep ms k ih => exact fun t ht => ih t ht (hp t ht)

/-- A program keeps what its acts, its requests and the background leave alone. -/
theorem Prog.Only.meets {c : Option Call} {I : Assertion} {p : Prog α} (hp : p.Only A R)
    (hI : Stable I)
    (hact : ∀ {a h s}, A a → I h s → I (h ++ [⟨c, s, .acted a⟩]) (s.apply a))
    (hsent : ∀ {request h s}, R request → I h s → I (h ++ [⟨c, s, .sent request⟩]) s)
    (hended : ∀ {request o h s}, R request → I h s → I (h ++ [⟨c, s, .ended request o⟩]) s) :
    Meets c I I p fun _ => I := by
  induction p with
  | done a => exact meets_done id
  | look k ih => exact meets_look fun s₀ => (ih s₀ (hp s₀)).mono (·.1) id
  | act a k ih => exact meets_act (hact hp.1) (ih hp.2)
  | dial k ih => exact meets_dial id fun o => ih o (hp o)
  | acquire k ih => exact meets_acquire hI id fun t admitted => ih t admitted (hp t admitted)
  | exchange request k ih =>
    exact meets_exchange (R := fun _ => I) (hsent hp.1) hI id (hended hp.1)
      fun t o => ih t o (hp.2 t o)
  | release k ih => exact meets_release (ih hp)
  | sleep ms k ih => exact meets_sleep hI id fun t ht => ih t ht (hp t ht)

/-- The requests of a history are within `R`. -/
def SentWithin (R : Bytes → Prop) (h : History) : Prop :=
  ∀ m ∈ h, ∀ request, m.what = .sent request → R request

theorem SentWithin.snoc {h : History} {m : Moment} (hh : SentWithin R h)
    (hm : ∀ request, m.what = .sent request → R request) : SentWithin R (h ++ [m]) := by
  intro m' hm'
  rcases List.mem_append.mp hm' with h' | h'
  · exact hh m' h'
  · rw [List.mem_singleton.mp h']
    exact hm

theorem SentWithin.stable (hpoll : R Op.statusRequest) : Stable fun h _ => SentWithin R h := by
  refine Stable.of_stirs fun {h s l s'} hh hl => ?_
  cases hl with
  | asks =>
    refine hh.snoc fun request he => ?_
    rwa [← Happening.sent.inj he]
  | misses => exact hh.snoc nofun
  | reads =>
    rw [List.append_cons]
    refine (hh.snoc ?_).snoc ?_
    · nofun
    · nofun
  | loses => exact hh.snoc nofun

/-- The requests of a run are within `R`, if those of polls are. -/
theorem Prog.Only.sentWithin {c : Option Call} {p : Prog α} (hp : p.Only A R)
    (hpoll : R Op.statusRequest) {s s' : Session} {l : History} {r : Option α}
    (hr : Runs c p s l s' r) : SentWithin R l := by
  have hmeets : Meets c (fun h _ => SentWithin R h) (fun h _ => SentWithin R h) p
      fun _ h _ => SentWithin R h := by
    refine hp.meets (SentWithin.stable hpoll) (fun _ hh => hh.snoc nofun) (fun hq hh => ?_)
      fun _ hh => hh.snoc nofun
    refine hh.snoc fun request he => ?_
    rwa [← Happening.sent.inj he]
  have hl : r.elim (SentWithin R l) fun _ => SentWithin R l := by
    refine hmeets (h := []) ?_ hr
    simp [SentWithin]
  cases r <;> exact hl

namespace Op

theorem Only.program {op : Op α} (h : op.Only A R) : op.program.Only A R :=
  Prog.Only.bind h fun _ => trivial

/-- An operation keeps what its acts, its requests and the background leave alone. -/
theorem Only.keeps {c : Option Call} {I : Assertion} {op : Op α} (h : op.Only A R) (hI : Stable I)
    (hact : ∀ {a h s}, A a → I h s → I (h ++ [⟨c, s, .acted a⟩]) (s.apply a))
    (hsent : ∀ {request h s}, R request → I h s → I (h ++ [⟨c, s, .sent request⟩]) s)
    (hended : ∀ {request o h s}, R request → I h s → I (h ++ [⟨c, s, .ended request o⟩]) s) :
    op.Keeps c I I fun _ => I := by
  refine (Prog.Only.meets h hI hact hsent hended).mono id ?_
  intro r h s hr
  cases r <;> exact hr

theorem only_bind {op : Op α} {f : α → Op β} (hop : op.Only A R) (hf : ∀ a, (f a).Only A R) :
    (op >>= f).Only A R := by
  refine Prog.Only.bind hop fun r => ?_
  cases r with
  | error e => trivial
  | ok a => exact hf a

theorem only_ofExcept {ε : Type} (f : ε → Failure) (e : Except ε α) : (ofExcept f e).Only A R := by
  cases e <;> trivial

theorem only_exchange {request : Bytes} (hr : R request) : (exchange request).Only A R := by
  refine only_bind (fun _ => trivial) fun s => ?_
  split
  · exact ⟨hr, fun _ _ => trivial⟩
  · trivial

theorem only_releasing {op : Op α} (h : op.Only A R) : (releasing op).Only A R :=
  Prog.Only.bind h fun _ => trivial

theorem only_refresh (ha : ∀ status, A (.reading status)) (hr : R statusRequest) :
    refresh.Only A R := by
  refine only_bind (only_exchange hr) fun r => ?_
  refine only_bind (only_ofExcept _ _) fun status => ?_
  have hact : (act (.reading status)).Only A R := ⟨ha status, trivial⟩
  exact only_bind hact fun _ => trivial

/-! ## What operations are built from -/

/-- The operation is put together from acts within `A`, requests within `R`, each of which is sent
behind the permit, and waits. -/
inductive Built (A : Act → Prop) (R : Bytes → Prop) : {α : Type} → Op α → Prop where
  | pure {α : Type} (a : α) : Built A R (Pure.pure a : Op α)
  | throw {α : Type} (e : Failure) : Built A R (MonadExcept.throw e : Op α)
  | bind {α β : Type} {op : Op α} {f : α → Op β} (hop : Built A R op)
      (hf : ∀ a, Built A R (f a)) : Built A R (op >>= f)
  | session : Built A R session
  | act {a : Act} (ha : A a) : Built A R (act a)
  | dial : Built A R dial
  | sleep (ms : Nat) : Built A R (sleep ms)
  | send {request : Bytes} (hr : R request) : Built A R (send request)
  | refresh {α : Type} {f : Nat → Nat → Op α} (ha : ∀ status, A (.reading status))
      (hr : R statusRequest) (hf : ∀ t₁ t₂, Built A R (f t₁ t₂)) :
      Built A R (acquire >>= fun t₁ => releasing refresh >>= fun t₂ => f t₁ t₂)

theorem Built.only {op : Op α} (h : op.Built A R) : op.Only A R := by
  induction h with
  | pure a => trivial
  | throw e => trivial
  | bind _ _ ihop ihf => exact only_bind ihop ihf
  | session => exact fun _ => trivial
  | act ha => exact ⟨ha, trivial⟩
  | dial =>
    intro o
    cases o <;> trivial
  | sleep ms => exact fun _ _ => trivial
  | send hr =>
    refine only_bind (fun _ _ => trivial) fun _ => ?_
    exact only_bind (only_releasing (only_exchange hr)) fun _ => trivial
  | refresh ha hr _ ih =>
    refine only_bind (fun _ _ => trivial) fun t₁ => ?_
    exact only_bind (only_releasing (only_refresh ha hr)) fun t₂ => ih t₁ t₂

/-- The requests of a run are within `R`, if those of polls are. -/
theorem Built.sentWithin {c : Option Call} {op : Op α} (h : op.Built A R)
    (hpoll : R statusRequest) {s s' : Session} {l : History} {r : Option (Except Failure α)}
    (hr : Runs c op.run s l s' r) : SentWithin R l :=
  Prog.Only.sentWithin h.only hpoll hr

theorem built_ofExcept {ε : Type} (f : ε → Failure) (e : Except ε α) :
    (ofExcept f e).Built A R := by
  cases e with
  | error e => exact .throw _
  | ok a => exact .pure a

theorem built_requireLink : requireLink.Built A R := by
  refine .bind .session fun s => ?_
  split
  · exact .pure ()
  · exact .throw _

theorem built_command {p : Wire.Packet} (hr : R p.encode) : (command p).Built A R :=
  .bind (.send hr) fun _ => built_ofExcept _ _

/-! ## Connecting and raw requests -/

theorem built_disconnect (h : A .disconnected) : disconnect.Built A R := .act h

theorem built_connect (h₁ : A .disconnected) (h₂ : A .connected) : connect.Built A R :=
  .bind (built_disconnect h₁) fun _ => .bind .dial fun _ => .act h₂

theorem built_sendRaw {request : Bytes} (hr : R request) : (sendRaw request).Built A R :=
  .bind built_requireLink fun _ => .send hr

/-! ## Breakpoints -/

theorem built_carryOut {edits : List Edit} (ha : ∀ edit ∈ edits, A (.edited edit))
    (hr : ∀ edit ∈ edits, R edit.packet.encode) : (carryOut edits).Built A R := by
  induction edits with
  | nil => exact .pure ()
  | cons edit edits ih =>
    refine .bind (built_command (hr edit (by simp))) fun _ => ?_
    refine .bind (.act (ha edit (by simp))) fun _ => ?_
    exact ih (fun e he => ha e (by simp [he])) fun e he => hr e (by simp [he])

theorem built_setBreakpoints (lines : List UInt32) (source : String)
    (ha : ∀ edit, A (.edited edit)) (hr : ∀ edit : Edit, R edit.packet.encode) :
    (setBreakpoints lines source).Built A R := by
  refine .bind built_requireLink fun _ => .bind .session fun s => ?_
  refine .bind (built_ofExcept _ _) fun added => ?_
  exact .bind (built_carryOut (fun e _ => ha e) fun e _ => hr e) fun _ => .pure _

theorem built_removeAllBreakpoints (ha : A .cleared)
    (hr : R (Wire.Packet.bare Wire.Opcode.removeAllBreakpoints).encode) :
    removeAllBreakpoints.Built A R :=
  .bind built_requireLink fun _ => .bind (built_command hr) fun _ => .act ha

/-! ## Frames -/

/-- The request for the frame at an index. -/
def frameRequest (index : UInt32) : Wire.Packet :=
  ⟨Wire.Opcode.readStackTrace, Wire.Packet.word index⟩

theorem built_readFrame {index : UInt32} (hr : R (frameRequest index).encode) :
    (readFrame index).Built A R := by
  refine .bind built_requireLink fun _ => .bind (built_command hr) fun reply => ?_
  refine .bind (built_ofExcept _ _) fun raw => ?_
  split
  · exact .throw _
  · exact .bind .session fun s => .bind (built_ofExcept _ _) fun l => .pure _

theorem built_stackFrames (ha : ∀ frames, A (.cached frames)) (hr : R (frameRequest 0).encode) :
    stackFrames.Built A R := by
  refine .bind .session fun s => ?_
  split
  · exact .pure _
  · exact .bind (built_readFrame hr) fun _ => .bind (.act (ha _)) fun _ => .pure _

theorem built_topFrame (ha : ∀ frames, A (.cached frames)) (hr : R (frameRequest 0).encode) :
    topFrame.Built A R := by
  refine .bind .session fun s => ?_
  split
  · exact .pure _
  · exact .bind (built_readFrame hr) fun _ => .bind (.act (ha _)) fun _ => .pure _

theorem built_stackFrame {index : UInt32} (ha : ∀ frames, A (.cached frames))
    (hr : R (frameRequest index).encode) : (stackFrame index).Built A R := by
  unfold stackFrame
  split
  · next h => exact built_topFrame ha (h ▸ hr)
  · exact built_readFrame hr

/-! ## Running, stopping and stepping -/

theorem built_resume (h₁ : A .resuming) (h₂ : A .resumed)
    (hr : R (Wire.Packet.bare Wire.Opcode.run).encode) : resume.Built A R := by
  refine .bind built_requireLink fun _ => .bind .session fun s => ?_
  split
  · exact .bind (.act h₁) fun _ => .bind (built_command hr) fun _ => .act h₂
  · exact .pure ()

theorem built_waitStopFrom (c : Config) (hc : c.Valid) (spent : Nat)
    (ha : ∀ status, A (.reading status)) (hr : R statusRequest) :
    (waitStopFrom c hc spent).Built A R := by
  fun_induction waitStopFrom c hc spent with
  | case1 spent ih =>
    refine .bind .session fun s => ?_
    split
    · exact .pure ()
    · split
      · exact .throw _
      · next ht =>
        refine .bind (.sleep _) fun pause => .bind built_requireLink fun _ => ?_
        exact .refresh ha hr fun t₁ t₂ => ih ht pause t₁ t₂

theorem built_waitStop (ha : ∀ status, A (.reading status)) (hr : R statusRequest) :
    waitStop.Built A R :=
  .bind .session fun s => built_waitStopFrom s.config s.valid 0 ha hr

theorem built_stop (ha : ∀ status, A (.reading status)) (hr : R statusRequest)
    (hs : R (Wire.Packet.bare Wire.Opcode.stop).encode) : stop.Built A R := by
  refine .bind built_requireLink fun _ => .bind .session fun s => ?_
  split
  · exact .pure ()
  · exact .bind (built_command hs) fun _ => built_waitStop ha hr

theorem built_singleStep (h₁ : A .stepping) (ha : ∀ status, A (.reading status))
    (hr : R statusRequest) (hs : R (Wire.Packet.bare Wire.Opcode.singleStep).encode)
    (hf : R (frameRequest 0).encode) : singleStep.Built A R :=
  .bind built_requireLink fun _ => .bind (.act h₁) fun _ =>
    .bind (built_command hs) fun _ => .bind (built_waitStop ha hr) fun _ => built_readFrame hf

theorem built_stepFrom (start : StackFrame) (limit : UInt32) (n : Nat) (h₁ : A .stepping)
    (ha : ∀ status, A (.reading status)) (h₂ : ∀ frames, A (.cached frames)) (hr : R statusRequest)
    (hs : R (Wire.Packet.bare Wire.Opcode.singleStep).encode) (hf : R (frameRequest 0).encode) :
    (stepFrom start limit n).Built A R := by
  induction n with
  | zero => exact .throw _
  | succ n ih =>
    refine .bind (built_singleStep h₁ ha hr hs hf) fun frame => ?_
    split
    · exact .bind (.act (h₂ _)) fun _ => .pure _
    · exact ih

theorem built_stepIn (h₁ : A .stepping) (ha : ∀ status, A (.reading status))
    (h₂ : ∀ frames, A (.cached frames)) (hr : R statusRequest)
    (hs : R (Wire.Packet.bare Wire.Opcode.singleStep).encode) (hf : R (frameRequest 0).encode) :
    stepIn.Built A R := by
  refine .bind built_requireLink fun _ => .bind .session fun s => ?_
  split
  · exact .bind (built_topFrame h₂ hf) fun start => built_stepFrom start _ _ h₁ ha h₂ hr hs hf
  · exact .throw _

end Op

end RemoteDebug
