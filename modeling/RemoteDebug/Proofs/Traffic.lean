import RemoteDebug.Channel
import RemoteDebug.Session.Prog

/-!
# Many callers on one channel

`Traffic` is a channel with any number of callers, each of them somewhere in the program of an
errand. A `Move` is made by one of them, by the device, or by who closes the channel, and `Moves`
says when it can be made and where it leads. What a caller does is cut up as far as others can get
in between. Taking the slot for a reply (`pending`), writing the request, running out of time and
giving the slot up are moves of their own, and so are the three parts of closing a channel
(`Traffic.close_eq`). How long a wait takes is left open, and so is whether a request can be
written. A caller sees its errand through.

An errand asks for the permit, looks whether the channel is open, makes one exchange and gives the
permit back (`Errand.outside_program`). `Advance` is what a move can do to a caller, and it does
nothing else to anybody (`Moves.proceeds`). So whatever a caller comes to is read off its program.
-/

namespace RemoteDebug

/-! ## Errands -/

/-- The program of an errand. Nothing but its failure is of interest here. -/
abbrev Work := Prog (Except Failure Unit)

/-- What a caller uses a channel for. -/
inductive Errand where
  | send (request : Bytes)
  | command (p : Wire.Packet)
  /-- Take in the status of the device. -/
  | refresh
  deriving DecidableEq, Repr

/-- What is done for an errand. -/
def Errand.program : Errand → Work
  | .send request => (discard (Op.send request)).run
  | .command p => (discard (Op.command p)).run
  | .refresh => (Op.acquire >>= fun _ => discard (Op.releasing Op.refresh)).run

/-- What a poll does once it has the permit. -/
def pollProgram : Work := (discard (Op.releasing Op.refresh)).run

/-! ## Where a program stands -/

/-- How an errand fails that comes too late. -/
def tooLate : Except Failure Unit := .error .connectionClosed

namespace Prog

/-- The exchange is over, and the permit is given back after at most a change to the session. -/
def Over : Work → Prop
  | .act _ k => k.Over
  | .release (.done _) => True
  | _ => False

/-- The channel was found open, and the exchange is to begin. -/
def Passed : Work → Prop
  | .exchange _ k => ∀ n o, (k n o).Over
  | _ => False

/-- The permit is at hand, and whether the channel is open is to be seen. -/
def Entered : Work → Prop
  | .look k => ∀ s : Session,
      if s.isConnected then (k s).Passed else k s = .release (.done tooLate)
  | _ => False

/-- The permit is to be asked for. -/
def Outside : Work → Prop
  | .acquire k => ∀ n, (k n true).Entered ∧ k n false = .done tooLate
  | _ => False

/-- The program is on its way through an errand. -/
def Fits (p : Work) : Prop :=
  match p with
  | .acquire _ => p.Outside
  | .look _ => p.Entered
  | .exchange _ _ => p.Passed
  | .act _ _ | .release _ => p.Over
  | .done _ => True
  | .dial _ | .sleep _ _ => False

theorem Outside.eq_acquire {p : Work} (h : p.Outside) : ∃ k, p = .acquire k := by
  cases p with
  | acquire k => exact ⟨k, rfl⟩
  | _ => exact h.elim

theorem Entered.eq_look {p : Work} (h : p.Entered) : ∃ k, p = .look k := by
  cases p with
  | look k => exact ⟨k, rfl⟩
  | _ => exact h.elim

theorem Passed.eq_exchange {p : Work} (h : p.Passed) : ∃ request k, p = .exchange request k := by
  cases p with
  | exchange request k => exact ⟨request, k, rfl⟩
  | _ => exact h.elim

theorem Over.eq_act_or_release {p : Work} (h : p.Over) :
    (∃ a k, p = .act a k) ∨ ∃ k, p = .release k := by
  cases p with
  | act a k => exact Or.inl ⟨a, k, rfl⟩
  | release k => exact Or.inr ⟨k, rfl⟩
  | _ => exact h.elim

/-- After the permit is given back, nothing is left to do. -/
theorem Over.eq_done {k : Work} (h : (Prog.release k).Over) : ∃ r, k = .done r := by
  cases k with
  | done r => exact ⟨r, rfl⟩
  | _ => exact h.elim

theorem Outside.fits {p : Work} (h : p.Outside) : p.Fits := by
  obtain ⟨k, rfl⟩ := h.eq_acquire
  exact h

theorem Entered.fits {p : Work} (h : p.Entered) : p.Fits := by
  obtain ⟨k, rfl⟩ := h.eq_look
  exact h

theorem Passed.fits {p : Work} (h : p.Passed) : p.Fits := by
  obtain ⟨request, k, rfl⟩ := h.eq_exchange
  exact h

theorem Over.fits {p : Work} (h : p.Over) : p.Fits := by
  rcases h.eq_act_or_release with ⟨a, k, rfl⟩ | ⟨k, rfl⟩ <;> exact h

end Prog

theorem Prog.bind_assoc {α β γ : Type} (p : Prog α) (f : α → Prog β) (g : β → Prog γ) :
    (p.bind f).bind g = p.bind fun a => (f a).bind g := by
  induction p with
  | done a => rfl
  | look k ih => exact congrArg look (funext ih)
  | act a k ih => exact congrArg (act a) ih
  | dial k ih => exact congrArg dial (funext ih)
  | acquire k ih => exact congrArg acquire (funext fun t => funext (ih t))
  | exchange request k ih => exact congrArg (exchange request) (funext fun t => funext (ih t))
  | release k ih => exact congrArg release ih
  | sleep ms k ih => exact congrArg (sleep ms) (funext fun t => funext (ih t))

/-- An exchange looks whether the channel is open before it begins. -/
theorem Op.entered_exchange (request : Bytes) {f : Except Failure (Nat × Bytes) → Work}
    (hf : ∀ r, (f r).Over) (hclosed : f (.error .connectionClosed) = .release (.done tooLate)) :
    ((exchange request).run.bind f).Entered := by
  intro s
  change if s.isConnected then
    (Prog.bind (if s.isConnected then .exchange request _ else .done _) f).Passed
    else (Prog.bind (if s.isConnected then .exchange request _ else .done _) f) = _
  cases s.isConnected with
  | true => exact fun n o => hf _
  | false => exact hclosed

theorem entered_pollProgram : pollProgram.Entered := by
  change (Prog.bind (Prog.bind (Prog.bind (Op.exchange Op.statusRequest).run _) _) _).Entered
  rw [Prog.bind_assoc, Prog.bind_assoc]
  refine Op.entered_exchange _ (fun r => ?_) rfl
  cases r with
  | error e => trivial
  | ok a =>
    change (Prog.bind (Prog.bind (Op.ofExcept id (Op.statusIn a.2)).run _) _).Over
    cases Op.statusIn a.2 <;> trivial

theorem Errand.outside_program (e : Errand) : e.program.Outside := by
  cases e with
  | send request =>
    refine fun n => ⟨?_, rfl⟩
    change (Prog.bind (Prog.bind (Prog.bind (Op.exchange request).run _) _) _).Entered
    rw [Prog.bind_assoc, Prog.bind_assoc]
    refine Op.entered_exchange _ (fun r => ?_) rfl
    cases r <;> trivial
  | command p =>
    refine fun n => ⟨?_, rfl⟩
    change (Prog.bind (Prog.bind (Prog.bind (Prog.bind (Op.exchange p.encode).run _) _) _)
      _).Entered
    rw [Prog.bind_assoc, Prog.bind_assoc, Prog.bind_assoc]
    refine Op.entered_exchange _ (fun r => ?_) rfl
    cases r with
    | error e => trivial
    | ok a =>
      change (Prog.release (Prog.bind (Op.ofExcept id (Op.replyTo p.opcode a.2)).run _)).Over
      cases Op.replyTo p.opcode a.2 <;> trivial
  | refresh => exact fun n => ⟨entered_pollProgram, rfl⟩

/-! ## Callers -/

/-- How far an exchange is. -/
inductive Stage where
  /-- The request is to be written. -/
  | armed (request : Bytes)
  | written
  /-- The time for the reply is over. -/
  | lapsed
  /-- The request could not be written. -/
  | broken (fault : Fault)
  deriving DecidableEq, Repr

/-- How the exchange ends, once it is so far, if `mail` has come for it. -/
def Stage.outcome? (mail : Option Outcome) : Stage → Option Outcome
  | .armed _ => none
  | .written => mail
  | .lapsed => some .silence
  | .broken fault => some (.broken fault)

/-- Where a caller is. -/
inductive Place where
  | idle
  | doing (p : Work)
  /-- In line for the permit. -/
  | queued (k : Bool → Work)
  /-- In an exchange, with what has come for it. -/
  | exchanging (stage : Stage) (mail : Option Outcome) (k : Outcome → Work)

namespace Place

/-- What becomes of a caller who asks for the permit. -/
def asked (k : Bool → Work) : Gate.Admission → Place
  | .admitted => .doing (k true)
  | .queued => .queued k
  | .refused => .doing (k false)

/-- The first in line is admitted. -/
def admitted : Place → Place
  | .queued k => .doing (k true)
  | x => x

/-- Who is in line fails. -/
def refused : Place → Place
  | .queued k => .doing (k false)
  | x => x

/-- Something comes for who waits for a reply. Only the first thing to come counts. -/
def received (o : Outcome) : Place → Place
  | .exchanging stage none k => .exchanging stage (some o) k
  | x => x

/-- The caller has the permit. -/
def Holds : Place → Prop
  | .doing (.look _) | .doing (.act _ _) | .doing (.exchange _ _) | .doing (.release _) => True
  | .exchanging _ _ _ => True
  | _ => False

/-- The caller is about to give the permit back. -/
def Leaving : Place → Prop
  | .doing (.release _) => True
  | _ => False

/-- The caller is in line. -/
def Waits : Place → Prop
  | .queued _ => True
  | _ => False

/-- The caller is in an exchange. -/
def Exchanging : Place → Prop
  | .exchanging _ _ _ => True
  | _ => False

/-- The caller is in an exchange for which nothing has come. -/
def Awaits : Place → Prop
  | .exchanging _ mail _ => mail = none
  | _ => False

/-- The caller is somewhere on the way through an errand. -/
def Fits : Place → Prop
  | .idle => True
  | .doing p => p.Fits
  | .queued k => (k true).Entered ∧ k false = .done tooLate
  | .exchanging _ _ k => ∀ o, (k o).Over

end Place

/-- A channel and its callers, named by `ι`. -/
structure Traffic (ι : Type) where
  channel : Channel ι
  place : ι → Place

/-- What happens on a channel. -/
inductive Move (ι : Type) where
  /-- An errand begins. -/
  | calls (i : ι) (e : Errand)
  /-- A poll begins. -/
  | polls (i : ι)
  /-- The permit is asked for. -/
  | enters (i : ι)
  /-- It is seen whether the channel is open. -/
  | looks (i : ι)
  /-- The session is changed. -/
  | notes (i : ι)
  /-- The next bytes to arrive are for the caller. -/
  | arms (i : ι)
  | writes (i : ι) (request : Bytes)
  /-- The request cannot be written. -/
  | breaks (i : ι) (fault : Fault)
  /-- The time for the reply is over. -/
  | lapses (i : ι)
  /-- The exchange ends. -/
  | concludes (i : ι)
  /-- The permit is given back. -/
  | leaves (i : ι)
  /-- The errand ends. -/
  | ends (i : ι) (r : Except Failure Unit)
  | delivers (bytes : Bytes)
  /-- The channel is marked closed. -/
  | marks
  /-- The gate is closed. -/
  | shuts
  /-- Who waits for a reply is told that none will come. -/
  | drops

/-- The caller who makes the move. -/
def Move.caller? {ι : Type} : Move ι → Option ι
  | .calls i _ | .polls i | .enters i | .looks i | .notes i | .arms i | .writes i _ | .breaks i _
  | .lapses i | .concludes i | .leaves i | .ends i _ => some i
  | .delivers _ | .marks | .shuts | .drops => none

variable {ι : Type}

/-- What the end of an exchange does to the channel. A reply that has come has emptied the slot, and
otherwise the caller does so. -/
def Stage.settle (ch : Channel ι) : Stage → Channel ι
  | .armed _ | .written => ch
  | .lapsed | .broken _ => ch.disarm

/-! ## Moves -/

namespace Traffic

/-- A new channel, which nobody uses. -/
def opened : Traffic ι := ⟨Channel.opened, fun _ => .idle⟩

variable [DecidableEq ι]

/-- Something happens to some callers. -/
def each (t : Traffic ι) (who : List ι) (f : Place → Place) : Traffic ι :=
  { t with place := fun i => if i ∈ who then f (t.place i) else t.place i }

/-- A caller is elsewhere. -/
def set (t : Traffic ι) (i : ι) (x : Place) : Traffic ι := t.each [i] fun _ => x

/-- Ask for the permit. -/
def enter (t : Traffic ι) (i : ι) (k : Bool → Work) : Traffic ι :=
  let (channel, admission) := t.channel.enter i
  { t with channel }.set i (.asked k admission)

/-- Give the permit back and go on with `k`. The first in line is admitted. -/
def leave (t : Traffic ι) (i : ι) (k : Work) : Traffic ι :=
  let (channel, next) := t.channel.leave i
  ({ t with channel }.set i (.doing k)).each next.toList Place.admitted

/-- Something comes for who waits for a reply, if there is somebody. -/
def hand (t : Traffic ι) (o : Outcome) : Traffic ι :=
  let (channel, caller) := t.channel.deliver
  { t with channel }.each caller.toList (Place.received o)

/-- Mark the channel closed. -/
def mark (t : Traffic ι) : Traffic ι :=
  { t with channel := { t.channel with connected := false } }

/-- Close the gate. Those in line fail. -/
def shut (t : Traffic ι) : Traffic ι :=
  let (gate, failed) := t.channel.gate.close
  { t with channel := { t.channel with gate } }.each failed Place.refused

/-- Marking the channel closed, closing the gate and turning away who waits for a reply close it. -/
theorem close_eq (t : Traffic ι) : (t.mark.shut.hand .closed).channel = t.channel.close.1 := rfl

end Traffic

variable [DecidableEq ι]

open Traffic

/-- A move and where it leads. -/
inductive Moves (t : Traffic ι) : Move ι → Traffic ι → Prop where
  | calls {i : ι} (e : Errand) (hi : t.place i = .idle) :
      Moves t (.calls i e) (t.set i (.doing e.program))
  /-- A poll does not wait for the permit. -/
  | polls {i : ι} {channel : Channel ι} (hi : t.place i = .idle)
      (hc : t.channel.tryEnter i = (channel, true)) :
      Moves t (.polls i) ({ t with channel }.set i (.doing pollProgram))
  | enters {i : ι} {k : Nat → Bool → Work} (n : Nat) (hi : t.place i = .doing (.acquire k)) :
      Moves t (.enters i) (t.enter i (k n))
  | looks {i : ι} {k : Session → Work} (s : Session) (hi : t.place i = .doing (.look k))
      (hs : s.isConnected = t.channel.connected) : Moves t (.looks i) (t.set i (.doing (k s)))
  | notes {i : ι} {a : Act} {k : Work} (hi : t.place i = .doing (.act a k)) :
      Moves t (.notes i) (t.set i (.doing k))
  | arms {i : ι} {request : Bytes} {k : Nat → Outcome → Work} (n : Nat)
      (hi : t.place i = .doing (.exchange request k)) :
      Moves t (.arms i)
        ({ t with channel := t.channel.arm i }.set i (.exchanging (.armed request) none (k n)))
  | writes {i : ι} {request : Bytes} {mail : Option Outcome} {k : Outcome → Work}
      (hi : t.place i = .exchanging (.armed request) mail k) :
      Moves t (.writes i request) (t.set i (.exchanging .written mail k))
  | breaks {i : ι} {request : Bytes} {mail : Option Outcome} {k : Outcome → Work} (fault : Fault)
      (hi : t.place i = .exchanging (.armed request) mail k) :
      Moves t (.breaks i fault) (t.set i (.exchanging (.broken fault) mail k))
  /-- A reply that has come is taken, however late it is looked at. -/
  | lapses {i : ι} {k : Outcome → Work} (hi : t.place i = .exchanging .written none k) :
      Moves t (.lapses i) (t.set i (.exchanging .lapsed none k))
  | concludes {i : ι} {stage : Stage} {mail : Option Outcome} {k : Outcome → Work} {o : Outcome}
      (hi : t.place i = .exchanging stage mail k) (ho : stage.outcome? mail = some o) :
      Moves t (.concludes i) ({ t with channel := stage.settle t.channel }.set i (.doing (k o)))
  | leaves {i : ι} {k : Work} (hi : t.place i = .doing (.release k)) :
      Moves t (.leaves i) (t.leave i k)
  | ends {i : ι} {r : Except Failure Unit} (hi : t.place i = .doing (.done r)) :
      Moves t (.ends i r) (t.set i .idle)
  | delivers (bytes : Bytes) : Moves t (.delivers bytes) (t.hand (.reply bytes))
  /-- A channel is marked closed once. The rest of closing it comes after that, in this order. -/
  | marks (hc : t.channel.connected = true) : Moves t .marks t.mark
  | shuts (hc : t.channel.connected = false) : Moves t .shuts t.shut
  | drops (hc : t.channel.gate.closed = true) : Moves t .drops (t.hand .closed)

/-- Moves, one after the other, and where they lead. -/
inductive Course : Traffic ι → List (Move ι) → Traffic ι → Prop where
  | nil (t : Traffic ι) : Course t [] t
  | cons {t t₁ t₂ : Traffic ι} {m : Move ι} {ms : List (Move ι)} (hm : Moves t m t₁)
      (hms : Course t₁ ms t₂) : Course t (m :: ms) t₂

theorem Course.append {t t₁ t₂ : Traffic ι} {ms ms' : List (Move ι)} (h : Course t ms t₁)
    (h' : Course t₁ ms' t₂) : Course t (ms ++ ms') t₂ := by
  induction h with
  | nil t => exact h'
  | cons hm _ ih => exact .cons hm (ih h')

/-! ## What a move does to one caller -/

theorem Prog.Outside.not_holds {p : Work} (h : p.Outside) : ¬(Place.doing p).Holds := by
  obtain ⟨k, rfl⟩ := h.eq_acquire
  exact id

theorem Prog.Entered.holds {p : Work} (h : p.Entered) : (Place.doing p).Holds := by
  obtain ⟨k, rfl⟩ := h.eq_look
  trivial

theorem Prog.Passed.holds {p : Work} (h : p.Passed) : (Place.doing p).Holds := by
  obtain ⟨request, k, rfl⟩ := h.eq_exchange
  trivial

theorem Prog.Over.holds {p : Work} (h : p.Over) : (Place.doing p).Holds := by
  rcases h.eq_act_or_release with ⟨a, k, rfl⟩ | ⟨k, rfl⟩ <;> trivial

/-- What a move can do to a caller, on a channel that is open or not. -/
inductive Advance (connected : Bool) : Place → Place → Prop where
  | calls (e : Errand) : Advance connected .idle (.doing e.program)
  | polls : Advance connected .idle (.doing pollProgram)
  | enters (k : Nat → Bool → Work) (n : Nat) (admission : Gate.Admission) :
      Advance connected (.doing (.acquire k)) (.asked (k n) admission)
  | admitted (k : Bool → Work) : Advance connected (.queued k) (.doing (k true))
  | refused (k : Bool → Work) : Advance connected (.queued k) (.doing (k false))
  | looks {k : Session → Work} {s : Session} (hs : s.isConnected = connected) :
      Advance connected (.doing (.look k)) (.doing (k s))
  | notes (a : Act) (k : Work) : Advance connected (.doing (.act a k)) (.doing k)
  | arms (request : Bytes) (k : Nat → Outcome → Work) (n : Nat) :
      Advance connected (.doing (.exchange request k)) (.exchanging (.armed request) none (k n))
  | writes (request : Bytes) (mail : Option Outcome) (k : Outcome → Work) :
      Advance connected (.exchanging (.armed request) mail k) (.exchanging .written mail k)
  | breaks (request : Bytes) (mail : Option Outcome) (k : Outcome → Work) (fault : Fault) :
      Advance connected (.exchanging (.armed request) mail k) (.exchanging (.broken fault) mail k)
  | lapses (k : Outcome → Work) :
      Advance connected (.exchanging .written none k) (.exchanging .lapsed none k)
  | receives (stage : Stage) (o : Outcome) (k : Outcome → Work) :
      Advance connected (.exchanging stage none k) (.exchanging stage (some o) k)
  | concludes (stage : Stage) (mail : Option Outcome) (k : Outcome → Work) (o : Outcome) :
      Advance connected (.exchanging stage mail k) (.doing (k o))
  | leaves (k : Work) : Advance connected (.doing (.release k)) (.doing k)
  | ends (r : Except Failure Unit) : Advance connected (.doing (.done r)) .idle

namespace Traffic

variable {t : Traffic ι} {i j : ι} {x : Place}

@[simp]
theorem channel_set : (t.set i x).channel = t.channel := rfl

@[simp]
theorem place_each (who : List ι) (f : Place → Place) :
    (t.each who f).place j = if j ∈ who then f (t.place j) else t.place j := rfl

@[simp]
theorem place_set : (t.set i x).place j = if j = i then x else t.place j := by
  simp [set]

theorem place_set_self : (t.set i x).place i = x := by
  simp

theorem each_nil (f : Place → Place) : t.each [] f = t := by
  simp [each]

/-- What arrives for nobody is dropped. -/
theorem hand_of_none (h : t.channel.pending = none) (o : Outcome) : t.hand o = t := by
  have hdisarm : t.channel.disarm = t.channel := by rw [Channel.disarm, ← h]
  simp only [hand, Channel.deliver, hdisarm, h, Option.toList_none, each_nil]

theorem each_singleton (f : Place → Place) : t.each [i] f = t.set i (f (t.place i)) := by
  refine congrArg (Traffic.mk t.channel) (funext fun j => ?_)
  by_cases hj : j = i <;> simp [hj]

end Traffic

/-- A caller stays where it is, or goes on as a move takes it. -/
def Proceeds (connected : Bool) (x y : Place) : Prop := y = x ∨ Advance connected x y

theorem Place.proceeds_admitted (connected : Bool) (x : Place) :
    Proceeds connected x x.admitted := by
  cases x with
  | queued k => exact Or.inr (.admitted k)
  | _ => exact Or.inl rfl

theorem Place.proceeds_refused (connected : Bool) (x : Place) : Proceeds connected x x.refused := by
  cases x with
  | queued k => exact Or.inr (.refused k)
  | _ => exact Or.inl rfl

theorem Place.proceeds_received (connected : Bool) (x : Place) (o : Outcome) :
    Proceeds connected x (x.received o) := by
  cases x with
  | exchanging stage mail k =>
    cases mail with
    | none => exact Or.inr (.receives stage o k)
    | some _ => exact Or.inl rfl
  | _ => exact Or.inl rfl

theorem Traffic.proceeds_each (t : Traffic ι) {connected : Bool} (who : List ι) {f : Place → Place}
    (hf : ∀ x, Proceeds connected x (f x)) (j : ι) :
    Proceeds connected (t.place j) ((t.each who f).place j) := by
  rw [place_each]
  split
  · exact hf _
  · exact Or.inl rfl

theorem Traffic.proceeds_set {t : Traffic ι} {connected : Bool} {i : ι} {x y : Place}
    (hi : t.place i = x) (hx : Advance connected x y) (j : ι) :
    Proceeds connected (t.place j) ((t.set i y).place j) := by
  rw [place_set]
  split
  · next hj =>
    rw [hj, hi]
    exact Or.inr hx
  · exact Or.inl rfl

theorem Moves.proceeds {t t' : Traffic ι} {m : Move ι} (h : Moves t m t') (j : ι) :
    Proceeds t.channel.connected (t.place j) (t'.place j) := by
  cases h with
  | calls e hi => exact proceeds_set hi (.calls e) j
  | polls hi hc => exact proceeds_set (t := { t with channel := _ }) hi .polls j
  | enters n hi => exact proceeds_set (t := { t with channel := _ }) hi (.enters _ n _) j
  | looks s hi hs => exact proceeds_set hi (.looks hs) j
  | notes hi => exact proceeds_set hi (.notes _ _) j
  | arms n hi => exact proceeds_set (t := { t with channel := _ }) hi (.arms _ _ n) j
  | writes hi => exact proceeds_set hi (.writes _ _ _) j
  | breaks fault hi => exact proceeds_set hi (.breaks _ _ _ fault) j
  | lapses hi => exact proceeds_set hi (.lapses _) j
  | concludes hi ho =>
    exact proceeds_set (t := { t with channel := _ }) hi (.concludes _ _ _ _) j
  | @leaves i k hi =>
    by_cases hj : j = i
    · -- Who gives the permit back is not in line.
      subst hj
      refine Or.inr ?_
      have hk : (t.leave j k).place j = .doing k := by simp [leave, Place.admitted]
      rw [hi, hk]
      exact .leaves k
    · have hothers := ({ t with channel := (t.channel.leave i).1 }.set i (.doing k)).proceeds_each
        (t.channel.leave i).2.toList (Place.proceeds_admitted t.channel.connected) j
      rwa [place_set, if_neg hj] at hothers
  | ends hi => exact proceeds_set hi (.ends _) j
  | delivers bytes => exact proceeds_each _ _ (fun x => x.proceeds_received _ _) j
  | marks hc => exact Or.inl rfl
  | shuts hc => exact proceeds_each _ _ (Place.proceeds_refused _) j
  | drops hc => exact proceeds_each _ _ (fun x => x.proceeds_received _ _) j

theorem Advance.fits {connected : Bool} {x y : Place} (h : Advance connected x y) (hx : x.Fits) :
    y.Fits := by
  cases h with
  | calls e => exact e.outside_program.fits
  | polls => exact entered_pollProgram.fits
  | enters k n admission =>
    obtain ⟨hin, hout⟩ := hx n
    cases admission with
    | admitted => exact hin.fits
    | queued => exact ⟨hin, hout⟩
    | refused => simp [Place.asked, Place.Fits, Prog.Fits, hout]
  | admitted k => exact hx.1.fits
  | refused k => simp [Place.Fits, Prog.Fits, hx.2]
  | @looks k s hs =>
    have hk := hx s
    split at hk
    · exact hk.fits
    · rw [hk]
      trivial
  | notes a k => exact Prog.Over.fits hx
  | arms request k n => exact hx n
  | writes request mail k => exact hx
  | breaks request mail k fault => exact hx
  | lapses k => exact hx
  | receives stage o k => exact hx
  | concludes stage mail k o => exact (hx o).fits
  | leaves k =>
    obtain ⟨r, rfl⟩ := Prog.Over.eq_done hx
    trivial
  | ends r => trivial

/-- A caller loses the permit only by giving it back. -/
theorem Advance.holds {connected : Bool} {x y : Place} (h : Advance connected x y) (hx : x.Fits)
    (hholds : x.Holds) (hstays : ¬x.Leaving) : y.Holds := by
  cases h with
  | calls e => exact hholds.elim
  | polls => exact hholds.elim
  | enters k n admission => exact hholds.elim
  | admitted k => exact hholds.elim
  | refused k => exact hholds.elim
  | @looks k s hs =>
    have hk := hx s
    split at hk
    · exact hk.holds
    · rw [hk]
      trivial
  | notes a k => exact Prog.Over.holds hx
  | concludes stage mail k o => exact (hx o).holds
  | leaves k => exact absurd trivial hstays
  | ends r => exact hholds.elim
  | _ => trivial

end RemoteDebug
