import RemoteDebug.Proofs.Deadlines
import RemoteDebug.Proofs.Freshness

/-!
# Stepping off a line

A call to step executes one instruction after the other, until it finds the device on another line
than before or in the same place. What it has found is read off the exchanges it has made :
`Session.steppedTo` is the frame that was read after each request to step, and `Session.judge` is
what the session makes of an exchange. `stepIn_walks` says what the call comes to in these terms,
whatever the device answers and whatever happens in the background.

The proof follows the program with the triples of `Op.Ends`. `StepEnds` is what one step does, and
`WalkEnds` is what a loop of steps does.
-/

namespace RemoteDebug

open Wire (Opcode)

/-! ## What exchanges show -/

/-- The request to execute one instruction. -/
def Op.stepRequest : Bytes := (Wire.Packet.bare Opcode.singleStep).encode

/-- The frame that the outcome of a request for it reports. -/
def Outcome.frame (timeout : UInt64) (registry : Registry) (o : Outcome) :
    Except Failure StackFrame :=
  o.reply? Opcode.readStackTrace timeout >>= frameIn registry 0

namespace Session

/-- What the session makes of an exchange that steps, asks for the status or reads a frame. -/
def judge (s : Session) (x : Bytes × Outcome) : Except Failure Unit :=
  let timeout := s.config.responseTimeout
  if x.1 = Op.statusRequest then (x.2.status timeout).map fun _ => ()
  else if x.1 = (Op.frameRequest 0).encode then
    (x.2.frame timeout s.registry).map fun _ => ()
  else (x.2.answer (x.1.headD 0) timeout).map fun _ => ()

/-- The frame that is read in an exchange. -/
def frameOf (s : Session) (x : Bytes × Outcome) : Option StackFrame :=
  if x.1 = (Op.frameRequest 0).encode then
    (x.2.frame s.config.responseTimeout s.registry).toOption
  else none

/-- The first frame that is read, before the next step. -/
def nextFrame (s : Session) : List (Bytes × Outcome) → Option StackFrame
  | [] => none
  | y :: x => if y.1 = Op.stepRequest then none else (s.frameOf y).or (s.nextFrame x)

/-- The frame that is read after each step, and before the next one. -/
def steppedTo (s : Session) : List (Bytes × Outcome) → List (Option StackFrame)
  | [] => []
  | y :: x => if y.1 = Op.stepRequest then s.nextFrame x :: s.steppedTo x else s.steppedTo x

/-- The frame that a walk starts from : the one at hand, or else the first that is read. -/
def start (s : Session) (x : List (Bytes × Outcome)) : Option StackFrame :=
  (s.frames.bind List.head?).or (s.nextFrame x)

variable {s : Session} {x y : List (Bytes × Outcome)} {o : Outcome}

theorem judge_status : s.judge (Op.statusRequest, o) =
    (o.status s.config.responseTimeout).map fun _ => () := rfl

theorem judge_frame : s.judge ((Op.frameRequest 0).encode, o) =
    (o.frame s.config.responseTimeout s.registry).map fun _ => () := rfl

theorem nextFrame_append_step :
    s.nextFrame (x ++ (Op.stepRequest, o) :: y) = s.nextFrame x := by
  induction x with
  | nil => rfl
  | cons z x ih => simp only [List.cons_append, nextFrame, ih]

/-- Each step has its own frame. -/
theorem steppedTo_append_step : s.steppedTo (x ++ (Op.stepRequest, o) :: y) =
    s.steppedTo x ++ s.nextFrame y :: s.steppedTo y := by
  induction x with
  | nil => rfl
  | cons z x ih =>
    simp only [List.cons_append, steppedTo, ih, nextFrame_append_step]
    split <;> rfl

theorem steppedTo_eq_nil (hx : ∀ z ∈ x, z.1 ≠ Op.stepRequest) : s.steppedTo x = [] := by
  induction x with
  | nil => rfl
  | cons z x ih =>
    rw [steppedTo, if_neg (hx z (by simp))]
    exact ih fun z' hz' => hx z' (by simp [hz'])

theorem length_steppedTo : (s.steppedTo x).length = (x.map Prod.fst).count Op.stepRequest := by
  induction x with
  | nil => rfl
  | cons z x ih =>
    rw [steppedTo, List.map_cons, List.count_cons]
    split
    · next h => simp [h, ih]
    · next h => simp [h, ih]

/-- Looks at the status read no frame. -/
theorem nextFrame_append_of_status (hx : ∀ z ∈ x, z.1 = Op.statusRequest) :
    s.nextFrame (x ++ y) = s.nextFrame y := by
  have hstep : Op.statusRequest ≠ Op.stepRequest := by decide
  have hframe : Op.statusRequest ≠ (Op.frameRequest 0).encode := by decide
  induction x with
  | nil => rfl
  | cons z x ih =>
    have hz := hx z (by simp)
    rw [List.cons_append, nextFrame, hz, if_neg hstep, frameOf, hz, if_neg hframe]
    exact ih fun z' hz' => hx z' (by simp [hz'])

theorem nextFrame_of_status (hx : ∀ z ∈ x, z.1 = Op.statusRequest) : s.nextFrame x = none := by
  have hnext := nextFrame_append_of_status (s := s) (y := []) hx
  rwa [List.append_nil] at hnext

/-- What is read first stays what is read first. -/
theorem nextFrame_append_of_some {f : StackFrame} (hx : s.nextFrame x = some f) :
    s.nextFrame (x ++ y) = some f := by
  induction x with
  | nil => cases hx
  | cons z x ih =>
    rw [List.cons_append, nextFrame]
    rw [nextFrame] at hx
    split at hx
    · cases hx
    · next hz =>
      rw [if_neg hz]
      cases hf : s.frameOf z with
      | some g => simpa [hf] using hx
      | none => exact ih (by simpa [hf] using hx)

/-- So does the frame that a walk starts from. -/
theorem start_append {f : StackFrame} (hx : s.start x = some f) : s.start (x ++ y) = some f := by
  rw [start] at hx ⊢
  cases htop : s.frames.bind List.head? with
  | some g => simpa [htop] using hx
  | none =>
    rw [htop, Option.none_or] at hx
    rw [Option.none_or]
    exact nextFrame_append_of_some hx

theorem nextFrame_frame : s.nextFrame (((Op.frameRequest 0).encode, o) :: x) =
    (o.frame s.config.responseTimeout s.registry).toOption.or (s.nextFrame x) := rfl

end Session

/-! ## Reading frames -/

/-- The frame at an index that a reply reports. -/
def frameFrom (registry : Registry) (index : UInt32) (reply : Wire.Reply) :
    Except Failure StackFrame := do
  let raw ← (Wire.Frame.decode reply.payload).mapError .protocol
  if raw.index ≠ index then
    throw (.protocol (.wrongFrame index raw.index))
  else
    let l ← (registry.lineAt raw.pc raw.className raw.methodName raw.descriptor).mapError
      .unresolved
    return ⟨raw.index, raw.pc, l.className, l.methodName, l.descriptor, l.source, l.line⟩

theorem Outcome.frame_eq (timeout : UInt64) (registry : Registry) (o : Outcome) :
    o.frame timeout registry =
      o.answer Opcode.readStackTrace timeout >>= frameFrom registry 0 := by
  cases o <;> rfl

/-- The configuration and the classes are those of `s₀`. -/
def Alike (s₀ s : Session) : Prop := s.config = s₀.config ∧ s.registry = s₀.registry

theorem Alike.lasts (s₀ : Session) : Lasts (Alike s₀) := by
  refine ⟨fun status hs => hs, fun {s} cause hs => ?_⟩
  simp only [Session.apply]
  split <;> exact hs

namespace Op

variable {call : Call} {F : Session → Prop} {x : List (Bytes × Outcome)} {w : Watch} {s₀ : Session}

/-- What a reply reports is looked up among the classes. -/
theorem ends_frameFrom {c : Option Call} {P : Assertion} (registry : Registry) (index : UInt32)
    (reply : Wire.Reply) (hP : ∀ {h s}, P h s → s.registry = registry) :
    (do
      let raw ← ofExcept .protocol (Wire.Frame.decode reply.payload)
      if raw.index ≠ index then
        throw (.protocol (.wrongFrame index raw.index))
      else
        let registry := (← session).registry
        let l ← ofExcept .unresolved
          (registry.lineAt raw.pc raw.className raw.methodName raw.descriptor)
        return ⟨raw.index, raw.pc, l.className, l.methodName, l.descriptor, l.source, l.line⟩ :
      Op StackFrame).Ends c P w fun _ r h s => P h s ∧ r = frameFrom registry index reply := by
  unfold frameFrom
  refine ends_ofExcept_bind (fun {e h s} he hp => ⟨hp, by rw [he]; rfl⟩) fun raw hraw => ?_
  rw [hraw]
  change Ends c P w (if raw.index ≠ index then _ else _) fun _ r h s => P h s ∧ r =
    if raw.index ≠ index then _ else _
  split
  · exact ends_throw fun hp => ⟨hp, rfl⟩
  · refine ends_session_bind fun s₀ => ?_
    refine Ends.mono (P := fun h s => s₀.registry = registry ∧ P h s) ?_ ?_ id
    · refine ends_of_imp fun hreg => ?_
      rw [hreg]
      refine ends_ofExcept_bind (fun he hp => ⟨hp, by rw [he]; rfl⟩) fun l hl => ?_
      exact ends_pure fun hp => ⟨hp, by rw [hl]; rfl⟩
    · rintro h s ⟨hp, rfl⟩
      exact ⟨hP hp, hp⟩

/-- A frame is read in one exchange. -/
theorem ends_readFrame (hF : Lasts F) (hlike : ∀ {s}, F s → Alike s₀ s) :
    (readFrame 0).Ends (some call) (Traced call F x) w fun v r h s =>
      (Traced call F x h s ∧ ∃ e, r = .error e ∧ Quits .start v s e) ∨
      ∃ o, Traced call F (x ++ [((frameRequest 0).encode, o)]) h s ∧
        r = o.frame s₀.config.responseTimeout s₀.registry := by
  refine ends_requireLink_bind (fun hx hs => ?_) ?_
  · exact Or.inl ⟨hx, _, rfl, .of_not_isConnected hs⟩
  refine Ends.mono (P := Traced call F x) ?_ (·.1) id
  refine ends_bind (ends_command_traced (frameRequest 0) hF fun hs => by rw [(hlike hs).1]) ?_
    fun v reply => ?_
  · rintro v e h s (⟨hx, he, hlost⟩ | ⟨o, he, hx⟩)
    · obtain rfl := Except.error.inj he
      exact Or.inl ⟨hx, _, rfl, .of_lost hlost⟩
    · refine Or.inr ⟨o, hx, ?_⟩
      rw [Outcome.frame_eq]
      exact congrArg (· >>= frameFrom s₀.registry 0) he
  · refine Ends.mono (P := fun h s => ∃ o,
      .ok reply = o.answer Opcode.readStackTrace s₀.config.responseTimeout ∧
        Traced call F (x ++ [((frameRequest 0).encode, o)]) h s) ?_ ?_ id
    · refine ends_of_exists fun o => ends_of_imp fun ho => ?_
      refine (ends_frameFrom s₀.registry 0 reply fun hx => (hlike hx.2).2).mono id ?_
      rintro v r h s ⟨hx, hr⟩
      refine Or.inr ⟨o, hx, ?_⟩
      rw [hr, Outcome.frame_eq]
      exact congrArg (· >>= frameFrom s₀.registry 0) ho
    · rintro h s (⟨-, he, -⟩ | hx)
      · cases he
      · exact hx

end Op

/-! ## One step -/

/-- The session is like `s₀` but for its status and its connection, and has no frames. -/
def Moved (s₀ s : Session) : Prop := Alike s₀ s ∧ s.frames = none

theorem Moved.lasts (s₀ : Session) : Lasts (Moved s₀) := by
  refine ⟨fun status hs => ⟨hs.1, ?_⟩, fun cause hs => ⟨(Alike.lasts s₀).lost cause hs.1, ?_⟩⟩
  · simp [Session.apply, hs.2]
  · rw [Session.frames_apply_lost]
    exact hs.2

/-- How a step ends, after the exchanges `x` : it gives up before it is requested, or it is
requested, and its result is the frame that is read after that, if there is one. -/
def StepEnds (call : Call) (s₀ : Session) (F : Session → Prop) (x : List (Bytes × Outcome))
    (w : Watch) (r : Except Failure StackFrame) : Assertion := fun h s =>
  (Traced call F x h s ∧ ∃ e, r = .error e ∧ Quits .start w s e) ∨
  ∃ o y, Traced call (Moved s₀) (x ++ (Op.stepRequest, o) :: y) h s ∧
    (∀ z ∈ y, z.1 ≠ Op.stepRequest) ∧
    Settles s₀.judge (Quits .start w s) ((Op.stepRequest, o) :: y) r ∧
    s₀.nextFrame y = r.toOption

namespace Op

variable {call : Call} {F : Session → Prop} {x : List (Bytes × Outcome)} {w : Watch} {s₀ : Session}

theorem ne_stepRequest {y : List (Bytes × Outcome)} (hy : ∀ z ∈ y, z.1 = statusRequest) :
    ∀ z ∈ y, z.1 ≠ stepRequest := by
  intro z hz
  rw [hy z hz]
  decide

theorem ends_singleStep (hlike : ∀ {s}, F s → Alike s₀ s) (hmoved : ∀ {s}, Moved s₀ s → F s) :
    singleStep.Ends (some call) (Traced call F x) w (StepEnds call s₀ F x) := by
  have hM := Moved.lasts s₀
  refine ends_requireLink_bind (fun hx hs => ?_) ?_
  · exact Or.inl ⟨hx, _, rfl, .of_not_isConnected hs⟩
  refine ends_act_bind (R := Traced call (Moved s₀) x)
    (fun hx => hx.1.acted fun hs => ⟨⟨(hlike hs).1, (hlike hs).2⟩, rfl⟩) ?_
  refine ends_bind (ends_command_traced (.bare Opcode.singleStep) hM fun hs => by rw [hs.1.1]) ?_
    fun v reply => ?_
  · rintro v e h s (⟨hx, he, hlost⟩ | ⟨o, he, hx⟩)
    · obtain rfl := Except.error.inj he
      exact Or.inl ⟨⟨hx.1, hmoved hx.2⟩, _, rfl, .of_lost hlost⟩
    · have hjudge : s₀.judge (stepRequest, o) = .error e :=
        congrArg (Except.map fun _ => ()) he.symm
      exact Or.inr ⟨o, [], hx, List.forall_mem_nil _, settles_single hjudge, rfl⟩
  refine Ends.mono (P := fun h s => ∃ o, s₀.judge (stepRequest, o) = .ok () ∧
    Traced call (Moved s₀) (x ++ [(stepRequest, o)]) h s) ?_ ?_ id
  · refine ends_of_exists fun o => ends_of_imp fun hstep => ?_
    have hjudge : ∀ o, s₀.judge (statusRequest, o) =
        (o.status s₀.config.responseTimeout).map fun _ => () := fun _ => Session.judge_status
    refine ends_bind (ends_waitStop hM (fun hs => hs.1.1) hjudge _) ?_ fun v _ => ?_
    · rintro v e h s ⟨y, hx, hy, hset, -⟩
      refine Or.inr ⟨o, y, by simpa using hx, ne_stepRequest hy, ?_,
        Session.nextFrame_of_status hy⟩
      exact (Settles.mono hset Quits.from_start).cons hstep
    refine Ends.mono (P := fun h s => ∃ y, ((∀ z ∈ y, z.1 = statusRequest) ∧
      Smooth s₀.judge ((stepRequest, o) :: y)) ∧
        Traced call (Moved s₀) (x ++ (stepRequest, o) :: y) h s) ?_ ?_ id
    · refine ends_of_exists fun y => ends_of_imp fun ⟨hy, hsmooth⟩ => ?_
      have hne := ne_stepRequest hy
      refine (ends_readFrame hM (·.1)).mono id ?_
      rintro w r h s (⟨hx, e, rfl, he⟩ | ⟨o', hx, hr⟩)
      · exact Or.inr ⟨o, y, hx, hne, Or.inr ⟨hsmooth, he⟩, Session.nextFrame_of_status hy⟩
      · refine Or.inr ⟨o, y ++ [((frameRequest 0).encode, o')], by simpa using hx, ?_, ?_, ?_⟩
        · refine List.forall_mem_append.mpr ⟨hne, List.forall_mem_singleton.mpr ?_⟩
          change (frameRequest 0).encode ≠ stepRequest
          decide
        · refine (settles_single ?_).after (x := (stepRequest, o) :: y) hsmooth
          rw [Session.judge_frame, hr]
        · rw [Session.nextFrame_append_of_status hy, Session.nextFrame_frame, ← hr]
          exact Option.or_none
    · rintro h s ⟨y, hx, hy, hset, -⟩
      exact ⟨y, ⟨hy, List.forall_mem_cons.mpr ⟨hstep, hset⟩⟩, by simpa using hx⟩
  · rintro h s (⟨-, he, -⟩ | ⟨o, he, hx⟩)
    · cases he
    · exact ⟨o, congrArg (Except.map fun _ => ()) he.symm, hx⟩

end Op

/-! ## Steps in a row -/

/-- Stepping from `base` ends at `f` : the frame is on another line, or the device has not moved. -/
def StackFrame.EndsStep (base f : StackFrame) : Prop :=
  f.line ≠ base.line ∨ f.source ≠ base.source ∨ f = base

theorem StackFrame.endsStep_iff {base f : StackFrame} :
    (!f.sameLine base || f == base) = true ↔ base.EndsStep f := by
  simp [sameLine, EndsStep, or_assoc]

/-- How a walk of at most `limit` steps from `base` ends, of which `x` are the exchanges. -/
inductive WalkEnds (s₀ : Session) (base : StackFrame) (limit : UInt32)
    (x : List (Bytes × Outcome)) (w : Watch) (s : Session) : Except Failure StackFrame → Prop where
  /-- The last frame ends it. -/
  | arrives {fs : List StackFrame} {f : StackFrame} (hfs : ∀ g ∈ fs, ¬base.EndsStep g)
      (hf : base.EndsStep f) (hx : s₀.steppedTo x = (fs ++ [f]).map some)
      (hlen : fs.length < limit.toNat) (hsmooth : Smooth s₀.judge x) (hs : s.frames = some [f]) :
      WalkEnds s₀ base limit x w s (.ok f)
  /-- No frame ends it. -/
  | runsOut {fs : List StackFrame} (hfs : ∀ g ∈ fs, ¬base.EndsStep g)
      (hx : s₀.steppedTo x = fs.map some) (hlen : fs.length = limit.toNat)
      (hsmooth : Smooth s₀.judge x) (hs : s₀.steppedTo x ≠ [] → s.frames = none) :
      WalkEnds s₀ base limit x w s (.error (.stepLimit limit))
  /-- A step fails, before it is requested or after that. -/
  | breaksOff {fs : List StackFrame} {e : Failure} (hfs : ∀ g ∈ fs, ¬base.EndsStep g)
      (hx : s₀.steppedTo x = fs.map some ∨ s₀.steppedTo x = fs.map some ++ [none])
      (hlen : fs.length < limit.toNat)
      (hset : Settles s₀.judge (Quits .start w s) x (.error e : Except Failure StackFrame))
      (hs : s₀.steppedTo x ≠ [] → s.frames = none) : WalkEnds s₀ base limit x w s (.error e)

namespace Op

variable {call : Call} {F : Session → Prop} {x : List (Bytes × Outcome)} {w : Watch} {s₀ : Session}

theorem ends_stepFrom (base : StackFrame) (limit : UInt32) {n : Nat} {fs : List StackFrame}
    (hlike : ∀ {s}, F s → Alike s₀ s) (hmoved : ∀ {s}, Moved s₀ s → F s)
    (hsmooth : Smooth s₀.judge x) (hsteps : s₀.steppedTo x = fs.map some)
    (hfs : ∀ g ∈ fs, ¬base.EndsStep g) (hlen : fs.length + n = limit.toNat)
    (hframes : ∀ {s}, fs ≠ [] → F s → s.frames = none) :
    (stepFrom base limit n).Ends (some call) (Traced call F x) w fun v r h s =>
      x <+: outcomesIn (some call) h ∧
        WalkEnds s₀ base limit (outcomesIn (some call) h) v s r := by
  -- The induction is on the steps that are left. The frames so far do not end the walk.
  induction n generalizing F x w fs with
  | zero =>
    refine ends_throw fun hx => ?_
    rw [hx.1]
    refine ⟨List.prefix_refl x, .runsOut hfs hsteps hlen hsmooth fun hne => ?_⟩
    exact hframes (by simpa [hsteps] using hne) hx.2
  | succ n ih =>
    refine ends_bind (ends_singleStep hlike hmoved) ?_ fun u f => ?_
    · rintro u e h s (⟨hx, e', he', he⟩ | ⟨o, y, hx, hy, hset, hnext⟩)
      · obtain rfl := Except.error.inj he'
        rw [hx.1]
        refine ⟨List.prefix_refl x, .breaksOff hfs (Or.inl hsteps) (by omega)
          (Or.inr ⟨hsmooth, he⟩) fun hne => ?_⟩
        exact hframes (by simpa [hsteps] using hne) hx.2
      · have hwalk : s₀.steppedTo (x ++ (stepRequest, o) :: y) = fs.map some ++ [none] := by
          rw [Session.steppedTo_append_step, hsteps, hnext, Session.steppedTo_eq_nil hy]
          rfl
        rw [hx.1]
        exact ⟨List.prefix_append _ _, .breaksOff hfs (Or.inr hwalk) (by omega)
          (hset.after hsmooth) fun _ => hx.2.2⟩
    · refine Ends.mono (P := fun h s => ∃ p : Outcome × List (Bytes × Outcome),
        (Smooth s₀.judge (x ++ (stepRequest, p.1) :: p.2) ∧
          s₀.steppedTo (x ++ (stepRequest, p.1) :: p.2) = (fs ++ [f]).map some) ∧
        Traced call (Moved s₀) (x ++ (stepRequest, p.1) :: p.2) h s) ?_ ?_ id
      · refine ends_of_exists fun ⟨o, y⟩ => ends_of_imp fun ⟨hsmooth', hsteps'⟩ => ?_
        split
        · next hf =>
          refine ends_act_bind (R := Traced call (fun s => s.frames = some [f]) _)
            (fun hx => hx.acted fun _ => rfl) (ends_pure fun hx => ?_)
          rw [hx.1]
          exact ⟨List.prefix_append _ _, .arrives hfs (StackFrame.endsStep_iff.mp hf) hsteps'
            (by omega) hsmooth' hx.2⟩
        · next hf =>
          refine (ih (F := Moved s₀) (·.1) id hsmooth' hsteps' ?_ ?_
            fun _ hs => hs.2).mono id ?_
          · refine List.forall_mem_append.mpr ⟨hfs, List.forall_mem_singleton.mpr ?_⟩
            rwa [← StackFrame.endsStep_iff]
          · rw [List.length_append, List.length_singleton]
            omega
          · exact fun ⟨hpre, hends⟩ => ⟨(List.prefix_append _ _).trans hpre, hends⟩
      · rintro h s (⟨-, _, he, -⟩ | ⟨o, y, hx, hy, hset, hnext⟩)
        · cases he
        · refine ⟨(o, y), ⟨smooth_append.mpr ⟨hsmooth, hset⟩, ?_⟩, hx⟩
          rw [Session.steppedTo_append_step, hsteps, hnext, Session.steppedTo_eq_nil hy]
          simp [Except.toOption]

end Op

/-- How the search for the frame that a walk starts from ends : it is the one at hand, or else the
first that is read. -/
def StartEnds (call : Call) (s₀ : Session) (w : Watch) (r : Except Failure StackFrame) :
    Assertion := fun h s =>
  Alike s₀ s ∧ (∀ z ∈ outcomesIn (some call) h, z.1 ≠ Op.stepRequest) ∧
    Settles s₀.judge (Quits .start w s) (outcomesIn (some call) h) r ∧
    s₀.start (outcomesIn (some call) h) = r.toOption

namespace Op

variable {call : Call} {w : Watch} {s₀ : Session}

theorem ends_topFrame :
    topFrame.Ends (some call) (fun h s => h = [] ∧ s = s₀) w (StartEnds call s₀) := by
  refine ends_session_bind fun s₁ => ?_
  split
  · next frame frames hframes =>
    refine ends_pure ?_
    rintro h s ⟨⟨rfl, rfl⟩, rfl⟩
    refine ⟨⟨rfl, rfl⟩, List.forall_mem_nil _, smooth_nil, ?_⟩
    simp [Session.start, hframes, Except.toOption]
  · next hframes =>
    refine ends_bind (R := StartEnds call s₀) ?_ id fun v frame => ?_
    · refine Ends.mono (P := fun h s => s₀.frames.bind List.head? = none ∧
        Traced call (Alike s₀) [] h s) ?_ ?_ id
      · refine ends_of_imp fun htop => (ends_readFrame (Alike.lasts s₀) id).mono id ?_
        rintro v r h s (⟨hx, e, rfl, he⟩ | ⟨o, hx, hr⟩)
        · rw [StartEnds, Session.start, hx.1, htop]
          exact ⟨hx.2, List.forall_mem_nil _, Or.inr ⟨smooth_nil, he⟩, rfl⟩
        · rw [StartEnds, Session.start, hx.1, htop]
          refine ⟨hx.2, List.forall_mem_singleton.mpr ?_, settles_single ?_, ?_⟩
          · change (frameRequest 0).encode ≠ stepRequest
            decide
          · rw [Session.judge_frame, hr]
          · rw [Option.none_or, List.nil_append, Session.nextFrame_frame, hr]
            exact Option.or_none
      · rintro h s ⟨⟨rfl, rfl⟩, rfl⟩
        refine ⟨?_, rfl, rfl, rfl⟩
        rcases hs : s.frames with _ | _ | ⟨frame, frames⟩
        · rfl
        · rfl
        · exact absurd hs (hframes frame frames)
    · refine ends_act_bind (R := StartEnds call s₀ v (.ok frame)) (fun {h s} hstart => ?_)
        (ends_pure id)
      rw [StartEnds, outcomesIn_append, show outcomesIn (some call) [⟨some call, s, .acted _⟩] = []
        from rfl, List.append_nil]
      exact hstart

end Op

/-- How a call to step ends where the device stands still, of which `x` are the exchanges : without
a frame to start from it fails before the first step. -/
def CallEnds (s₀ : Session) (x : List (Bytes × Outcome)) (w : Watch) (s : Session)
    (r : Except Failure StackFrame) : Prop :=
  match s₀.start x with
  | some base => WalkEnds s₀ base s₀.config.maxSteps x w s r
  | none => s₀.steppedTo x = [] ∧ ∃ e, r = .error e ∧ Settles s₀.judge (Quits .start w s) x r

namespace Op

variable {call : Call} {w : Watch} {s₀ : Session}

theorem ends_stepIn (hs : s₀.isConnected = true) :
    stepIn.Ends (some call) (fun h s => h = [] ∧ s = s₀) w fun v r h s =>
      if s₀.status.stopped then CallEnds s₀ (outcomesIn (some call) h) v s r
      else r = .error .notStopped ∧ h = [] := by
  refine ends_requireLink_bind ?_ ?_
  · rintro h s ⟨rfl, rfl⟩ hlost
    rw [hs] at hlost
    cases hlost
  refine ends_session_bind fun s₁ => ?_
  refine Ends.mono (P := fun h s => s₁ = s₀ ∧ h = [] ∧ s = s₀) (ends_of_imp ?_) ?_ id
  · rintro rfl
    split
    · refine ends_bind ends_topFrame ?_ fun u base => ?_
      · rintro u e h s ⟨-, hne, hset, hstart⟩
        rw [CallEnds, hstart]
        exact ⟨Session.steppedTo_eq_nil hne, e, rfl, hset⟩
      refine Ends.mono (P := fun h s => ∃ x, ((∀ z ∈ x, z.1 ≠ stepRequest) ∧ Smooth s₁.judge x ∧
        s₁.start x = some base) ∧ Traced call (Alike s₁) x h s) ?_ ?_ id
      · refine ends_of_exists fun x => ends_of_imp fun ⟨hne, hsmooth, hstart⟩ => ?_
        have hnil : s₁.steppedTo x = ([] : List StackFrame).map some :=
          Session.steppedTo_eq_nil hne
        refine (ends_stepFrom base s₁.config.maxSteps id (·.1) hsmooth hnil
          (List.forall_mem_nil _) (Nat.zero_add _) fun h => absurd rfl h).mono id ?_
        rintro v r h s ⟨⟨y, hy⟩, hends⟩
        have hstart' : s₁.start (outcomesIn (some call) h) = some base := by
          rw [← hy]
          exact Session.start_append hstart
        rwa [CallEnds, hstart']
      · rintro h s ⟨halike, hne, hset, hstart⟩
        exact ⟨_, ⟨hne, hset, hstart⟩, rfl, halike⟩
    · exact ends_throw fun h => ⟨rfl, h.1⟩
  · rintro h s ⟨⟨⟨rfl, rfl⟩, -⟩, rfl⟩
    exact ⟨rfl, rfl, rfl⟩

end Op

/-! ## The law -/

/-- The exchange that fails is the last one, and its failure is that of the operation. -/
theorem Settles.of_failed {α : Type} {judge : Bytes × Outcome → Except Failure Unit}
    {quits : Failure → Prop} {x pre post : List (Bytes × Outcome)} {y : Bytes × Outcome}
    {r : Except Failure α} {e : Failure} (h : Settles judge quits x r) (hx : x = pre ++ y :: post)
    (hy : judge y = .error e) : post = [] ∧ r = .error e := by
  have hrough {z : List (Bytes × Outcome)} (hz : Smooth judge z) : y ∉ z := by
    intro hmem
    have hok := hz y hmem
    rw [hy] at hok
    cases hok
  cases r with
  | ok a => exact absurd (by simp [hx]) (hrough h)
  | error e' =>
    rcases h with ⟨pre', y', hx', hpre, hy'⟩ | ⟨hsmooth, -⟩
    · rcases List.eq_nil_or_concat post with rfl | ⟨post', z, rfl⟩
      · obtain ⟨rfl, heq⟩ := List.append_inj' (hx.symm.trans hx') rfl
        obtain rfl := List.singleton_inj.mp heq
        rw [hy] at hy'
        exact ⟨rfl, by rw [Except.error.inj hy']⟩
      · have heq : (pre ++ y :: post') ++ [z] = pre' ++ [y'] := by
          rw [← hx', hx]
          simp
        obtain ⟨rfl, -⟩ := List.append_inj' heq rfl
        exact absurd (by simp) (hrough hpre)
    · exact absurd (by simp [hx]) (hrough hsmooth)

theorem map_some_snoc_none_ne {α : Type} {as bs : List α} :
    as.map some ++ [none] ≠ bs.map some := by
  intro h
  have hmem : none ∈ bs.map some := by
    rw [← h]
    simp
  simp at hmem

namespace WalkEnds

variable {s₀ s : Session} {base : StackFrame} {limit : UInt32} {x : List (Bytes × Outcome)}
  {w : Watch} {r : Except Failure StackFrame}

theorem ok_iff (h : WalkEnds s₀ base limit x w s r) (f : StackFrame) :
    r = .ok f ↔ ∃ fs, s₀.steppedTo x = (fs ++ [f]).map some ∧ fs.length < limit.toNat ∧
      (∀ g ∈ fs, ¬base.EndsStep g) ∧ base.EndsStep f := by
  have hinj := (Option.some_injective StackFrame).list_map
  constructor
  · rintro rfl
    cases h with
    | arrives hfs hf hx hlen => exact ⟨_, hx, hlen, hfs, hf⟩
  · rintro ⟨gs, hgs, hlen, -, hf⟩
    cases h with
    | arrives hfs hf' hx =>
      have heq := hinj (hx.symm.trans hgs)
      rw [List.singleton_inj.mp (List.append_inj' heq rfl).2]
    | runsOut hfs hx =>
      obtain rfl := hinj (hx.symm.trans hgs)
      exact absurd hf (hfs f (by simp))
    | breaksOff hfs hx =>
      rcases hx with hx | hx
      · obtain rfl := hinj (hx.symm.trans hgs)
        exact absurd hf (hfs f (by simp))
      · exact absurd (hx.symm.trans hgs) map_some_snoc_none_ne

theorem eq_stepLimit (h : WalkEnds s₀ base limit x w s r) {fs : List StackFrame}
    (hfs : s₀.steppedTo x = fs.map some) (hlen : fs.length = limit.toNat)
    (hstay : ∀ g ∈ fs, ¬base.EndsStep g) : r = .error (.stepLimit limit) := by
  have hinj := (Option.some_injective StackFrame).list_map
  cases h with
  | arrives _ hf hx =>
    obtain rfl := hinj (hfs.symm.trans hx)
    exact absurd hf (hstay _ (by simp))
  | runsOut => rfl
  | breaksOff _ hx hlen' =>
    rcases hx with hx | hx
    · obtain rfl := hinj (hfs.symm.trans hx)
      omega
    · exact absurd (hx.symm.trans hfs) map_some_snoc_none_ne

/-- A walk gives up on its own account, or when it has made as many steps as it may. -/
theorem settles (h : WalkEnds s₀ base limit x w s r) : Settles s₀.judge (fun e =>
    (e = .stepLimit limit ∧ (s₀.steppedTo x).length = limit.toNat) ∨ Quits .start w s e) x r := by
  cases h with
  | arrives _ _ _ _ hsmooth => exact hsmooth
  | runsOut _ hx hlen hsmooth => exact Or.inr ⟨hsmooth, Or.inl ⟨rfl, by simpa [hx] using hlen⟩⟩
  | breaksOff _ _ _ hset => exact hset.mono Or.inr

end WalkEnds

/-- A call leaves the frame behind that it ends at, and none when it fails after a step. -/
def LeavesFrames (s₀ : Session) (x : List (Bytes × Outcome)) (s : Session) :
    Except Failure StackFrame → Prop
  | .ok f => s.frames = some [f]
  | .error _ => s₀.steppedTo x ≠ [] → s.frames = none

namespace CallEnds

variable {s₀ s : Session} {x : List (Bytes × Outcome)} {w : Watch}
  {r : Except Failure StackFrame}

theorem settles (h : CallEnds s₀ x w s r) : Settles s₀.judge (fun e =>
    (e = .stepLimit s₀.config.maxSteps ∧
      (s₀.steppedTo x).length = s₀.config.maxSteps.toNat) ∨ Quits .start w s e) x r := by
  rw [CallEnds] at h
  split at h
  · exact h.settles
  · obtain ⟨-, e, -, hset⟩ := h
    exact hset.mono Or.inr

theorem leavesFrames (h : CallEnds s₀ x w s r) : LeavesFrames s₀ x s r := by
  rw [CallEnds] at h
  split at h
  · cases h with
    | arrives _ _ _ _ _ hs => exact hs
    | runsOut _ _ _ _ hs => exact hs
    | breaksOff _ _ _ _ hs => exact hs
  · obtain ⟨hnil, e, rfl, -⟩ := h
    exact fun hne => absurd hnil hne

end CallEnds

/-- A call to step on a connection, whatever the device answers and whatever the background does. If
the device is not known to stand still, the call is refused and nothing is sent. Otherwise it starts
from the frame at hand or from the first that is read, and has one frame for each request to step.
It succeeds with the first of them that ends stepping, if that is within the limit, and keeps this
frame. It fails with the limit if no frame within it ends stepping. An exchange that fails is the
last one, and the call fails as it does. There is no other failure but those of a device that does
not stop in time and of a lost connection, and none leaves frames behind after a step. -/
theorem stepIn_walks {s s' : Session} {l : History} {w : Watch} {r : Except Failure StackFrame}
    (hs : s.isConnected = true)
    (hl : Runs (some .stepIn) (Op.stepIn.run.watched .start) s l s' (some (w, r))) :
    let x := outcomesIn (some .stepIn) l
    let limit := s.config.maxSteps
    (s.status.stopped = false → r = .error .notStopped ∧ l = []) ∧
    (s.status.stopped = true →
      (sentBy (some .stepIn) l).count Op.stepRequest = (s.steppedTo x).length ∧
      (s.start x = none → s.steppedTo x = [] ∧ ∃ e, r = .error e) ∧
      (∀ base, s.start x = some base →
        (∀ f, r = .ok f ↔ ∃ fs, s.steppedTo x = (fs ++ [f]).map some ∧
          fs.length < limit.toNat ∧ (∀ g ∈ fs, ¬base.EndsStep g) ∧ base.EndsStep f) ∧
        ∀ fs : List StackFrame, s.steppedTo x = fs.map some → fs.length = limit.toNat →
          (∀ g ∈ fs, ¬base.EndsStep g) → r = .error (.stepLimit limit)) ∧
      (∀ f, r = .ok f → s'.frames = some [f] ∧ ∀ y ∈ x, s.judge y = .ok ()) ∧
      (∀ pre y post e, x = pre ++ y :: post → s.judge y = .error e → post = [] ∧ r = .error e) ∧
      ∀ e, r = .error e → (s.steppedTo x ≠ [] → s'.frames = none) ∧
        ((e = .stepLimit limit ∧ (s.steppedTo x).length = limit.toNat) ∨
          (∃ pre y, x = pre ++ [y] ∧ s.judge y = .error e) ∨ Quits .start w s' e)) := by
  intro x limit
  have hends : if s.status.stopped then CallEnds s x w s' r else r = .error .notStopped ∧ l = [] :=
    Op.ends_stepIn hs (h := []) ⟨rfl, rfl⟩ hl
  refine ⟨fun hrunning => by simpa [hrunning] using hends, fun hstopped => ?_⟩
  rw [if_pos hstopped] at hends
  have hset := hends.settles
  have hframes := hends.leavesFrames
  refine ⟨?_, fun hstart => ?_, fun base hstart => ?_, ?_, ?_, ?_⟩
  · rw [hl.of_watched.sentBy_eq, Session.length_steppedTo]
  · rw [CallEnds, hstart] at hends
    obtain ⟨hnil, e, he, -⟩ := hends
    exact ⟨hnil, e, he⟩
  · rw [CallEnds, hstart] at hends
    exact ⟨hends.ok_iff, fun fs hfs hlen hstay => hends.eq_stepLimit hfs hlen hstay⟩
  · rintro f rfl
    exact ⟨hframes, hset⟩
  · exact fun pre y post e hx hy => hset.of_failed hx hy
  · rintro e rfl
    refine ⟨hframes, ?_⟩
    rcases hset with ⟨pre, y, hx, -, hy⟩ | ⟨-, hlimit | hquits⟩
    · exact Or.inr (Or.inl ⟨pre, y, hx, hy⟩)
    · exact Or.inl hlimit
    · exact Or.inr (Or.inr hquits)

/-- Two steps lead from the first line of a method to the second. -/
theorem stepIn_walks_twoLines :
    let frame (pc : UInt32) : Outcome :=
      .reply (1 :: 0 :: (⟨0, pc, "A", "m", "()V"⟩ : Wire.Frame).encode true 0 0 0)
    let place (pc line : UInt32) : StackFrame := ⟨0, pc, "A", "m", "()V", "A.java", line⟩
    let s := ((Session.new {} Config.valid_default).apply (.loaded (.twoLines 0))).apply .connected
    let p := Op.stepIn.run.watched .start
    let r := p.replay (some .stepIn) s
      [frame 0, .reply [7, 0], frame 2, .reply [7, 0], frame 4]
    s.isConnected = true ∧ Runs (some .stepIn) p s r.1 r.2.1 (some (.start, .ok (place 4 6))) ∧
      s.start (outcomesIn (some .stepIn) r.1) = some (place 0 5) ∧
      s.steppedTo (outcomesIn (some .stepIn) r.1) = [some (place 2 5), some (place 4 6)] ∧
      (sentBy (some .stepIn) r.1).count Op.stepRequest = 2 ∧
      r.2.1.frames = some [place 4 6] := by
  intro frame place s p r
  have hs : s.isConnected = true := rfl
  have hrun : Runs (some .stepIn) p s r.1 r.2.1 (some (.start, .ok (place 4 6))) := by
    have hresult : r.2.2 = some (.start, .ok (place 4 6)) := by decide +kernel
    rw [← hresult]
    exact Prog.runs_replay _ _ _ _
  have hsteps : s.steppedTo (outcomesIn (some .stepIn) r.1) =
      [some (place 2 5), some (place 4 6)] := by decide +kernel
  obtain ⟨hcount, -, -, hframes, -⟩ := (stepIn_walks hs hrun).2 (by decide +kernel)
  refine ⟨hs, hrun, by decide +kernel, hsteps, ?_, (hframes _ rfl).1⟩
  rw [hcount, hsteps]
  rfl

end RemoteDebug
