import RemoteDebug.Proofs.Freshness

/-!
# What histories look like

A history is a chain : each moment finds the session that the one before it has left (`Follows`),
and a session changes by the acts in it alone. A law about what has happened so far is then an
induction over the moments, and says nothing about programs any more.

Most such laws are about a condition that some moments bring about and others end. It holds exactly
if one of the former has come and none of the latter since (`Follows.since_iff`).

What there is to know about the moments themselves comes from the programs. A moment is `Proper` if
it is one that its call may bring about, and `Timely` if it finds the session as its act expects.
-/

namespace RemoteDebug

/-! ## Since -/

theorem split_snoc {h pre post : History} {m x : Moment} (heq : h ++ [x] = pre ++ m :: post) :
    (pre = h ∧ m = x ∧ post = []) ∨ ∃ post', post = post' ++ [x] ∧ h = pre ++ m :: post' := by
  rcases List.eq_nil_or_concat post with rfl | ⟨post', y, rfl⟩
  · obtain ⟨rfl, he⟩ := List.append_inj' heq rfl
    exact Or.inl ⟨rfl, (List.singleton_inj.mp he).symm, rfl⟩
  · have heq' : h ++ [x] = (pre ++ m :: post') ++ [y] := by simpa using heq
    obtain ⟨rfl, he⟩ := List.append_inj' heq' rfl
    exact Or.inr ⟨post', by simp [List.singleton_inj.mp he], rfl⟩

/-- Something with `P` has happened, and nothing with `Q` since. -/
def Since (P Q : Moment → Prop) (h : History) : Prop :=
  ∃ pre m post, h = pre ++ m :: post ∧ P m ∧ ∀ m' ∈ post, ¬Q m'

theorem not_since_nil {P Q : Moment → Prop} : ¬Since P Q [] := by
  rintro ⟨pre, m, post, heq, -⟩
  simp at heq

theorem since_snoc {P Q : Moment → Prop} {h : History} {m : Moment} :
    Since P Q (h ++ [m]) ↔ P m ∨ Since P Q h ∧ ¬Q m := by
  constructor
  · rintro ⟨pre, m', post, heq, hP, hpost⟩
    rcases split_snoc heq with ⟨-, rfl, -⟩ | ⟨post', rfl, hh⟩
    · exact Or.inl hP
    · refine Or.inr ⟨⟨pre, m', post', hh, hP, fun x hx => hpost x (by simp [hx])⟩, ?_⟩
      exact hpost m (by simp)
  · rintro (hP | ⟨⟨pre, m', post, rfl, hP, hpost⟩, hm⟩)
    · exact ⟨h, m, [], rfl, hP, by simp⟩
    · refine ⟨pre, m', post ++ [m], by simp, hP, fun x hx => ?_⟩
      rcases List.mem_append.mp hx with hx | hx
      · exact hpost x hx
      · rwa [List.mem_singleton.mp hx]

/-- Where `Q` does not happen, `P` since is `P` at all. -/
theorem since_iff_exists {P Q : Moment → Prop} {h : History} (hQ : ∀ m ∈ h, ¬Q m) :
    Since P Q h ↔ ∃ m ∈ h, P m := by
  constructor
  · rintro ⟨pre, m, post, rfl, hP, -⟩
    exact ⟨m, by simp, hP⟩
  · rintro ⟨m, hm, hP⟩
    obtain ⟨pre, post, rfl⟩ := List.append_of_mem hm
    exact ⟨pre, m, post, rfl, hP, fun x hx => hQ x (by simp [hx])⟩

/-! ## Chains -/

/-- The session just after a moment. -/
def Moment.after (m : Moment) : Session :=
  match m.what with
  | .acted a => m.session.apply a
  | _ => m.session

/-- Each moment of the history finds the session that the one before it has left. -/
inductive Follows (start : Session) : History → Session → Prop where
  | nil : Follows start [] start
  | snoc {h : History} (m : Moment) (hf : Follows start h m.session) :
      Follows start (h ++ [m]) m.after

theorem Follows.split {start s : Session} {h pre post : History} {m : Moment}
    (hf : Follows start h s) (heq : h = pre ++ m :: post) : Follows start pre m.session := by
  induction hf generalizing post with
  | nil => simp at heq
  | snoc x hf ih =>
    rcases split_snoc heq with ⟨rfl, rfl, -⟩ | ⟨post', -, hh⟩
    · exact hf
    · exact ih hh

/-- A history in two parts is a chain of both. -/
theorem Follows.of_append {start s : Session} {h l : History} (hf : Follows start (h ++ l) s) :
    ∃ s₁, Follows start h s₁ ∧ Follows s₁ l s := by
  generalize heq : h ++ l = h' at hf
  induction hf generalizing l with
  | nil =>
    obtain ⟨rfl, rfl⟩ := List.append_eq_nil_iff.mp heq
    exact ⟨start, .nil, .nil⟩
  | snoc m hf ih =>
    rcases List.eq_nil_or_concat l with rfl | ⟨l', x, rfl⟩
    · rw [List.append_nil] at heq
      exact ⟨m.after, heq ▸ hf.snoc, .nil⟩
    · rw [List.concat_eq_append, ← List.append_assoc] at heq
      obtain ⟨hl, hx⟩ := List.append_inj' heq rfl
      obtain ⟨s₁, h₁, h₂⟩ := ih hl
      rw [List.concat_eq_append, List.singleton_inj.mp hx]
      exact ⟨s₁, h₁, h₂.snoc⟩

/-- What every moment of a chain leaves true holds at its end. -/
theorem Follows.keeps {start s : Session} {h : History} {F : Session → Prop}
    (hf : Follows start h s) (h₀ : F start) (hstep : ∀ m ∈ h, F m.session → F m.after) : F s := by
  induction hf with
  | nil => exact h₀
  | snoc m hf ih => exact hstep m (by simp) (ih fun x hx => hstep x (by simp [hx]))

/-- A condition that `P` brings about and `Q` ends. -/
theorem Follows.since_iff {start s : Session} {h : History} {F : Session → Prop}
    {P Q : Moment → Prop} (hf : Follows start h s)
    (hstep : ∀ m ∈ h, (F m.after ↔ P m ∨ F m.session ∧ ¬Q m)) :
    F s ↔ Since P Q h ∨ F start ∧ ∀ m ∈ h, ¬Q m := by
  induction hf with
  | nil => simp [not_since_nil]
  | snoc m hf ih =>
    have hm := hstep m (by simp)
    have ih := ih fun x hx => hstep x (by simp [hx])
    rw [hm, ih, since_snoc, List.forall_mem_append, List.forall_mem_singleton]
    grind

/-! ## What calls may do -/

/-- The call may do so. -/
def Call.May (c : Call) : Act → Prop
  | .connected => c = .connect
  | .disconnected => c = .connect ∨ c = .disconnect
  | .lost _ => False
  | .resuming | .resumed => c = .resume
  | .stepping => c = .stepIn
  | .reading _ => c = .stop ∨ c = .stepIn
  | .cached _ => c = .stackFrames ∨ c = .stepIn ∨ ∃ index, c = .stackFrame index
  | .edited _ => ∃ lines source, c = .setBreakpoints lines source
  | .cleared => c = .removeAllBreakpoints
  | .loaded registry => c = .load registry

theorem Call.only (c : Call) : c.program.Only c.May fun _ => True := by
  have hprogram {c : Call} {α : Type} {op : Op α} (h : op.Built c.May fun _ => True) :
      op.program.Only c.May fun _ => True := h.only.program
  cases c with
  | connect => exact hprogram (Op.built_connect (Or.inl rfl) rfl)
  | disconnect => exact hprogram (Op.built_disconnect (Or.inr rfl))
  | sendRaw request => exact hprogram (Op.built_sendRaw trivial)
  | load registry => exact hprogram (.act rfl)
  | setBreakpoints lines source =>
    exact hprogram (Op.built_setBreakpoints lines source (fun _ => ⟨lines, source, rfl⟩)
      fun _ => trivial)
  | removeAllBreakpoints => exact hprogram (Op.built_removeAllBreakpoints rfl trivial)
  | resume => exact hprogram (Op.built_resume rfl rfl trivial)
  | stop => exact hprogram (Op.built_stop (fun _ => Or.inl rfl) trivial trivial)
  | stepIn =>
    exact hprogram (Op.built_stepIn rfl (fun _ => Or.inr rfl) (fun _ => Or.inr (Or.inl rfl))
      trivial trivial trivial)
  | stackFrame index =>
    exact hprogram (Op.built_stackFrame (fun _ => Or.inr (Or.inr ⟨index, rfl⟩)) trivial)
  | stackFrames => exact hprogram (Op.built_stackFrames (fun _ => Or.inl rfl) trivial)

/-- The moment is one that its call may bring about, which is allowed. Without a call, it is one of
the background. -/
def Moment.Proper (allowed : Call → Prop) (m : Moment) : Prop :=
  match m.call with
  | some c => allowed c ∧ ∀ a, m.what = .acted a → c.May a
  | none => ∀ a, m.what = .acted a → (∃ status, a = .reading status) ∨ ∃ cause, a = .lost cause

/-- What the background does not do is done by a call. -/
theorem Moment.Proper.called {allowed : Call → Prop} {m : Moment} {a : Act}
    (hm : m.Proper allowed) (hw : m.what = .acted a) (hread : ∀ status, a ≠ .reading status)
    (hlost : ∀ cause, a ≠ .lost cause) : ∃ c, m.call = some c ∧ allowed c ∧ c.May a := by
  rw [Proper] at hm
  split at hm
  · next c hc => exact ⟨c, hc, hm.1, hm.2 a hw⟩
  · rcases hm a hw with ⟨status, rfl⟩ | ⟨cause, rfl⟩
    · exact absurd rfl (hread status)
    · exact absurd rfl (hlost cause)

section

variable {allowed : Call → Prop} {start s : Session} {h : History}

/-- What every proper moment keeps holds of every session that calls lead to. -/
theorem Reaches.keeps_moments {I : Assertion} (h₀ : I [] start)
    (hstep : ∀ {h m}, m.Proper allowed → I h m.session → I (h ++ [m]) m.after)
    (hr : Reaches allowed start h s) : I h s := by
  have hstable : Stable I := by
    refine Stable.of_stirs fun {h s l s'} hI hl => ?_
    cases hl with
    | asks => exact hstep (m := ⟨none, s, .sent Op.statusRequest⟩) nofun hI
    | misses o => exact hstep (m := ⟨none, s, .ended Op.statusRequest o⟩) nofun hI
    | @reads bytes status =>
      have h₁ := hstep (m := ⟨none, s, .ended Op.statusRequest (.reply bytes)⟩) nofun hI
      have h₂ := hstep (m := ⟨none, s, .acted (.reading status)⟩)
        (fun a ha => Or.inl ⟨status, (Happening.acted.inj ha).symm⟩) h₁
      rwa [List.append_assoc] at h₂
    | loses cause =>
      refine hstep (m := ⟨none, s, .acted (.lost cause)⟩) (fun a ha => Or.inr ⟨cause, ?_⟩) hI
      exact (Happening.acted.inj ha).symm
  refine hr.keeps h₀ hstable fun c hc => c.only.meets hstable ?_ ?_ ?_
  · intro a h s ha hI
    refine hstep (m := ⟨some c, s, .acted a⟩) ⟨hc, fun a' ha' => ?_⟩ hI
    rwa [← Happening.acted.inj ha']
  · intro request h s _ hI
    exact hstep (m := ⟨some c, s, .sent request⟩) ⟨hc, nofun⟩ hI
  · intro request o h s _ hI
    exact hstep (m := ⟨some c, s, .ended request o⟩) ⟨hc, nofun⟩ hI

theorem Reaches.follows (hr : Reaches allowed start h s) : Follows start h s :=
  hr.keeps_moments .nil fun _ hf => hf.snoc

theorem Reaches.proper (hr : Reaches allowed start h s) : ∀ m ∈ h, m.Proper allowed := by
  refine hr.keeps_moments (I := fun h _ => ∀ m ∈ h, m.Proper allowed) (by simp) ?_
  intro h m hm hh
  exact List.forall_mem_append.mpr ⟨hh, List.forall_mem_singleton.mpr hm⟩

end

/-! ## When acts are done -/

/-- The moment finds the session as its act expects. Nobody starts the device that is not there or
not halted, and nobody takes note that it runs with frames of a halted one at hand. -/
def Moment.Timely (m : Moment) : Prop :=
  match m.what with
  | .acted .resuming => m.session.isConnected = true ∧ m.session.status.stopped = true
  | .acted .resumed => m.session.frames = none
  | .acted .stepping => m.session.isConnected = true
  | _ => True

/-- Everything was timely. -/
def AllTimely (h : History) (_ : Session) : Prop := ∀ m ∈ h, m.Timely

theorem AllTimely.snoc {h : History} {s s' : Session} {m : Moment} (hh : AllTimely h s)
    (hm : m.Timely) : AllTimely (h ++ [m]) s' :=
  List.forall_mem_append.mpr ⟨hh, List.forall_mem_singleton.mpr hm⟩

theorem AllTimely.stable : Stable AllTimely := by
  refine Stable.of_moments fun hl => ?_
  cases hl <;> simp [Moment.Timely]

/-- The act expects nothing. -/
def Act.AnyTime (a : Act) : Prop := ∀ c s, Moment.Timely ⟨c, s, .acted a⟩

namespace Op

variable {c : Option Call}

theorem keeps_timely {α : Type} {op : Op α} (h : op.Built Act.AnyTime fun _ => True) :
    op.Keeps c AllTimely AllTimely fun _ => AllTimely :=
  h.only.keeps AllTimely.stable (fun ha hh => hh.snoc (ha _ _)) (fun _ hh => hh.snoc trivial)
    fun _ hh => hh.snoc trivial

theorem keeps_resume_timely : resume.Keeps c AllTimely AllTimely fun _ => AllTimely := by
  refine keeps_bind (keeps_requireLink id) fun _ => keeps_session_bind fun s₀ => ?_
  split
  · next hs =>
    -- The frames go before the request for the permit, and the waits bring none back.
    have hstable := AllTimely.stable.and NoFrames.stable
    refine keeps_bind (R := fun _ h s => AllTimely h s ∧ NoFrames h s) (keeps_act ?_) fun _ => ?_
    · rintro h s ⟨⟨hh, hl⟩, rfl⟩
      exact ⟨hh.snoc ⟨hl, hs⟩, rfl⟩
    refine keeps_bind (R := fun _ h s => AllTimely h s ∧ NoFrames h s) ?_ fun _ => ?_
    · exact keeps_command hstable (·.1) (fun ⟨hh, hn⟩ => ⟨hh.snoc trivial, hn⟩) hstable (·.1)
        (fun ⟨hh, hn⟩ _ => ⟨hh.snoc trivial, hn⟩) fun ⟨hh, _⟩ _ => hh.snoc trivial
    · exact keeps_act fun ⟨hh, hn⟩ => hh.snoc hn
  · exact keeps_pure (·.1.1)

theorem keeps_singleStep_timely : singleStep.Keeps c AllTimely AllTimely fun _ => AllTimely := by
  refine keeps_bind (keeps_requireLink id) fun _ => ?_
  refine keeps_bind (R := fun _ => AllTimely) (keeps_act fun ⟨hh, hl⟩ => hh.snoc hl) fun _ => ?_
  refine keeps_bind (keeps_timely (built_command trivial)) fun _ => ?_
  refine keeps_bind (keeps_timely (built_waitStop (fun _ _ _ => trivial) trivial)) fun _ => ?_
  exact keeps_timely (built_readFrame trivial)

theorem keeps_stepFrom_timely (start : StackFrame) (limit : UInt32) (n : Nat) :
    (stepFrom start limit n).Keeps c AllTimely AllTimely fun _ => AllTimely := by
  induction n with
  | zero => exact keeps_throw id
  | succ n ih =>
    refine keeps_bind keeps_singleStep_timely fun frame => ?_
    split
    · exact keeps_timely (.bind (.act fun _ _ => trivial) fun _ => .pure _)
    · exact ih

theorem keeps_stepIn_timely : stepIn.Keeps c AllTimely AllTimely fun _ => AllTimely := by
  refine keeps_bind (keeps_timely built_requireLink) fun _ => ?_
  refine keeps_bind (keeps_timely .session) fun s => ?_
  split
  · refine keeps_bind (keeps_timely (built_topFrame (fun _ _ _ => trivial) trivial)) fun start => ?_
    exact keeps_stepFrom_timely start _ _
  · exact keeps_throw id

end Op

/-- The calls that do nothing but acts that expect nothing keep everything timely. -/
theorem AllTimely.keeps_call (c : Call) :
    Meets (some c) AllTimely AllTimely c.program fun _ => AllTimely := by
  by_cases hresume : c = .resume
  · exact hresume ▸ Op.keeps_resume_timely.program
  by_cases hstep : c = .stepIn
  · exact hstep ▸ Op.keeps_stepIn_timely.program
  refine c.only.meets AllTimely.stable (fun {a h s} ha hh => hh.snoc ?_)
    (fun _ hh => hh.snoc trivial) fun _ hh => hh.snoc trivial
  cases a with
  | resuming => exact absurd ha hresume
  | resumed => exact absurd ha hresume
  | stepping => exact absurd ha hstep
  | _ => trivial

theorem Reaches.timely {allowed : Call → Prop} {start s : Session} {h : History}
    (hr : Reaches allowed start h s) : ∀ m ∈ h, m.Timely :=
  hr.keeps (I := AllTimely) (by simp [AllTimely]) AllTimely.stable fun c _ => AllTimely.keeps_call c

end RemoteDebug
