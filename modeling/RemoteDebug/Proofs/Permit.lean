import RemoteDebug.Proofs.Footprint

/-!
# The permit in programs

A program has to ask for the permit before it talks to the device, and to give it back. `Prog`
leaves it to the program to do so. `Prog.Bracketed` says that it does : it exchanges with the permit
in hand only, and asks, pauses and changes the connection without it only. Everything that is built
from the parts of `Op.Built` is bracketed, and so is the program of every call (`Call.bracketed`).
-/

namespace RemoteDebug

/-- A program may do so, with the permit in hand or not. That a connection is lost is not up to
it. -/
def Act.Allowed (held : Bool) (a : Act) : Prop :=
  (∀ cause, a ≠ .lost cause) ∧ (held = true → a ≠ .connected ∧ a ≠ .disconnected)

/-- The program keeps to the permit. It starts with the permit in hand if the flag says so, and ends
with it in hand if `Q` says so of its value. -/
def Prog.Bracketed {α : Type} (Q : α → Bool) : Bool → Prog α → Prop
  | held, .done a => Q a = held
  | held, .look k => ∀ s, (k s).Bracketed Q held
  | held, .act a k => a.Allowed held ∧ k.Bracketed Q held
  | held, .dial k => ∀ o, (k o).Bracketed Q held
  | held, .acquire k => held = false ∧ ∀ t admitted, (k t admitted).Bracketed Q admitted
  | held, .exchange _ k => held = true ∧ ∀ t o, (k t o).Bracketed Q true
  | held, .release k => held = true ∧ k.Bracketed Q false
  | held, .sleep _ k => held = false ∧ ∀ t ht, (k t ht).Bracketed Q false

variable {α β : Type}

theorem Prog.Bracketed.bind {R : α → Bool} {Q : β → Bool} {p : Prog α} {f : α → Prog β}
    {held : Bool} (hp : p.Bracketed R held) (hf : ∀ a, (f a).Bracketed Q (R a)) :
    (p.bind f).Bracketed Q held := by
  induction p generalizing held with
  | done a =>
    have ha : R a = held := hp
    exact ha ▸ hf a
  | look k ih => exact fun s => ih s (hp s)
  | act a k ih => exact ⟨hp.1, ih hp.2⟩
  | dial k ih => exact fun o => ih o (hp o)
  | acquire k ih => exact ⟨hp.1, fun t admitted => ih t admitted (hp.2 t admitted)⟩
  | exchange request k ih => exact ⟨hp.1, fun t o => ih t o (hp.2 t o)⟩
  | release k ih => exact ⟨hp.1, ih hp.2⟩
  | sleep ms k ih => exact ⟨hp.1, fun t ht => ih t ht (hp.2 t ht)⟩

namespace Op

/-- The operation starts and ends without the permit, and keeps to it in between. -/
def Balanced (op : Op α) : Prop := op.run.Bracketed (fun _ => false) false

/-- The operation has the permit in hand from start to end. -/
def Guarded (op : Op α) : Prop := op.run.Bracketed (fun _ => true) true

theorem Balanced.bind {op : Op α} {f : α → Op β} (hop : op.Balanced) (hf : ∀ a, (f a).Balanced) :
    (op >>= f).Balanced := by
  refine Prog.Bracketed.bind hop fun r => ?_
  cases r with
  | error e => rfl
  | ok a => exact hf a

theorem Guarded.bind {op : Op α} {f : α → Op β} (hop : op.Guarded) (hf : ∀ a, (f a).Guarded) :
    (op >>= f).Guarded := by
  refine Prog.Bracketed.bind hop fun r => ?_
  cases r with
  | error e => rfl
  | ok a => exact hf a

/-- What is done between asking for the permit and giving it back has it in hand. -/
theorem Guarded.balanced {op : Nat → Op α} {f : Nat → α → Op β} (hop : ∀ t, (op t).Guarded)
    (hf : ∀ t a, (f t a).Balanced) :
    (acquire >>= fun t => releasing (op t) >>= fun a => f t a).Balanced := by
  refine ⟨rfl, fun t admitted => ?_⟩
  cases admitted with
  | false => rfl
  | true =>
    have hreleasing : (releasing (op t)).run.Bracketed (fun _ => false) true :=
      Prog.Bracketed.bind (hop t) fun _ => ⟨rfl, rfl⟩
    refine hreleasing.bind fun r => ?_
    cases r with
    | error e => rfl
    | ok a => exact hf t a

theorem guarded_exchange (request : Bytes) : (exchange request).Guarded := by
  refine Guarded.bind (fun _ => rfl) fun s => ?_
  split
  · exact ⟨rfl, fun _ _ => rfl⟩
  · rfl

theorem guarded_refresh : refresh.Guarded := by
  refine (guarded_exchange _).bind fun r => ?_
  refine Guarded.bind ?_ fun status => ?_
  · cases statusIn r.2 <;> rfl
  · have hact : (act (.reading status)).Guarded := ⟨⟨nofun, fun _ => ⟨nofun, nofun⟩⟩, rfl⟩
    exact hact.bind fun _ => rfl

theorem Built.balanced {A : Act → Prop} {R : Bytes → Prop} {op : Op α} (h : op.Built A R)
    (hA : ∀ {a}, A a → ∀ cause, a ≠ .lost cause) : op.Balanced := by
  induction h with
  | pure a => rfl
  | throw e => rfl
  | bind _ _ ihop ihf => exact ihop.bind ihf
  | session => exact fun _ => rfl
  | act ha => exact ⟨⟨hA ha, nofun⟩, rfl⟩
  | dial =>
    intro o
    cases o <;> rfl
  | sleep ms => exact ⟨rfl, fun _ _ => rfl⟩
  | @send request hr => exact Guarded.balanced (fun _ => guarded_exchange request) fun _ _ => rfl
  | refresh ha hr _ ih => exact Guarded.balanced (fun _ => guarded_refresh) ih

end Op

/-- Every call starts and ends without the permit, and keeps to it in between. -/
theorem Call.bracketed (c : Call) : c.program.Bracketed (fun _ => false) false := by
  let A : Act → Prop := fun a => ∀ cause, a ≠ .lost cause
  have hprogram {α : Type} {op : Op α} (h : op.Built A fun _ => True) :
      op.program.Bracketed (fun _ => false) false :=
    Prog.Bracketed.bind (h.balanced id) fun _ => rfl
  cases c with
  | connect => exact hprogram (Op.built_connect nofun nofun)
  | disconnect => exact hprogram (Op.built_disconnect nofun)
  | sendRaw request => exact hprogram (Op.built_sendRaw trivial)
  | load registry => exact hprogram (.act nofun)
  | setBreakpoints lines source =>
    exact hprogram (Op.built_setBreakpoints lines source (fun _ => nofun) fun _ => trivial)
  | removeAllBreakpoints => exact hprogram (Op.built_removeAllBreakpoints nofun trivial)
  | resume => exact hprogram (Op.built_resume nofun nofun trivial)
  | stop => exact hprogram (Op.built_stop (fun _ => nofun) trivial trivial)
  | stepIn =>
    exact hprogram (Op.built_stepIn nofun (fun _ => nofun) (fun _ => nofun) trivial trivial trivial)
  | stackFrame index => exact hprogram (Op.built_stackFrame (fun _ => nofun) trivial)
  | stackFrames => exact hprogram (Op.built_stackFrames (fun _ => nofun) trivial)

end RemoteDebug
