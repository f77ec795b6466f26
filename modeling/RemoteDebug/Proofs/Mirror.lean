import Mathlib.Data.Multiset.AddSub
import RemoteDebug.Proofs.Breakpoints
import RemoteDebug.Proofs.Footprint

/-!
# The breakpoints of a session mirror those of the device

`ledger` is what the requests alone tell about the breakpoints on the device : a payload is there
once for each accepted request that adds it, less those that remove it. The session keeps its
breakpoints by source line and the device by class, method and instruction, and classes may be
loaded anew between the request that adds a breakpoint and the one that removes it. Still the
payloads of the session's breakpoints are the ledger, wherever calls lead and wherever they stop
(`breakpoints_mirror_ledger`), so no request removes a breakpoint that the device does not have.
-/

namespace RemoteDebug

open Wire (Opcode)

/-! ## The ledger -/

/-- The ledger after something happens. -/
def Happening.post (ledger : Multiset Bytes) : Happening → Multiset Bytes
  | .ended (op :: payload) outcome =>
    if outcome.accepted op then
      if op = Opcode.addBreakpoint then payload ::ₘ ledger
      else if op = Opcode.removeBreakpoint then ledger.erase payload
      else if op = Opcode.removeAllBreakpoints then 0
      else ledger
    else ledger
  | _ => ledger

/-- The payloads that the device has accepted and not removed since. -/
def ledger (h : History) : Multiset Bytes := h.foldl (fun payloads m => m.what.post payloads) 0

/-- Each request to remove a breakpoint names one that was in the ledger when it was sent. -/
def RemovesKnown (h : History) : Prop :=
  ∀ pre m post payload, h = pre ++ m :: post →
    m.what = .sent (Opcode.removeBreakpoint :: payload) → payload ∈ ledger pre

theorem ledger_snoc (h : History) (m : Moment) : ledger (h ++ [m]) = m.what.post (ledger h) := by
  simp [ledger, List.foldl_append]

theorem RemovesKnown.snoc {h : History} {m : Moment} (hh : RemovesKnown h)
    (hm : ∀ payload, m.what = .sent (Opcode.removeBreakpoint :: payload) → payload ∈ ledger h) :
    RemovesKnown (h ++ [m]) := by
  intro pre m' post payload heq hm'
  rcases List.eq_nil_or_concat post with rfl | ⟨post', y, rfl⟩
  · obtain ⟨rfl, he⟩ := List.append_inj' heq rfl
    rw [← List.singleton_inj.mp he] at hm'
    exact hm payload hm'
  · have heq' : h ++ [m] = (pre ++ m' :: post') ++ [y] := by simpa using heq
    obtain ⟨rfl, -⟩ := List.append_inj' heq' rfl
    exact hh pre m' post' payload rfl hm'

/-! ## The mirror -/

/-- The breakpoints of the session are those of the ledger, on one line each. -/
structure Mirrored (h : History) (s : Session) : Prop where
  ledger_eq : ledger h = (s.breakpoints.map Location.payload : Multiset Bytes)
  distinct : (s.breakpoints.map Location.key).Nodup
  removes : RemovesKnown h

/-- The request is about a breakpoint. -/
def editsDevice (request : Bytes) : Bool :=
  request.head? == some Opcode.addBreakpoint || request.head? == some Opcode.removeBreakpoint
    || request.head? == some Opcode.removeAllBreakpoints

/-- Something that leaves the ledger alone and removes nothing. -/
def Happening.Plain : Happening → Prop
  | .acted _ => True
  | .sent request => editsDevice request = false
  | .ended request _ => editsDevice request = false

theorem Happening.Plain.post_eq {w : Happening} (hw : w.Plain) (payloads : Multiset Bytes) :
    w.post payloads = payloads := by
  cases w with
  | acted a => rfl
  | sent request => rfl
  | ended request outcome =>
    cases request with
    | nil => rfl
    | cons op payload =>
      simp only [Happening.Plain, editsDevice, List.head?_cons, Bool.or_eq_false_iff,
        beq_eq_false_iff_ne, ne_eq, Option.some.injEq] at hw
      obtain ⟨⟨h₁, h₂⟩, h₃⟩ := hw
      simp [Happening.post, h₁, h₂, h₃]

namespace Mirrored

theorem snoc_plain {h : History} {s s' : Session} {m : Moment} (hm : Mirrored h s)
    (hw : m.what.Plain) (hs : s'.breakpoints = s.breakpoints) : Mirrored (h ++ [m]) s' where
  ledger_eq := by rw [ledger_snoc, hw.post_eq, hm.ledger_eq, hs]
  distinct := by rw [hs]; exact hm.distinct
  removes := hm.removes.snoc fun payload he => by
    rw [he] at hw
    simp [Happening.Plain, editsDevice] at hw

theorem stable : Stable Mirrored := by
  refine Stable.of_stirs fun {h s l s'} hm hl => ?_
  cases hl with
  | asks => exact hm.snoc_plain rfl rfl
  | misses => exact hm.snoc_plain rfl rfl
  | @reads bytes status =>
    have h₁ : Mirrored (h ++ [⟨none, s, .ended Op.statusRequest (.reply bytes)⟩]) s :=
      hm.snoc_plain rfl rfl
    have h₂ : Mirrored (_ ++ [⟨none, s, .acted (.reading status)⟩]) (s.apply (.reading status)) :=
      h₁.snoc_plain trivial rfl
    simpa using h₂
  | loses cause =>
    refine hm.snoc_plain trivial ?_
    simp only [Session.apply]
    split <;> rfl

end Mirrored

/-! ## Calls that leave the breakpoints alone -/

/-- The act leaves the breakpoints alone. -/
def Act.Plain (a : Act) : Prop := ∀ s : Session, (s.apply a).breakpoints = s.breakpoints

theorem Mirrored.keeps_of_built {α : Type} {c : Option Call} {op : Op α}
    (h : op.Built Act.Plain fun request => editsDevice request = false) :
    Meets c Mirrored Mirrored op.program fun _ => Mirrored :=
  h.only.program.meets Mirrored.stable (fun ha hm => hm.snoc_plain trivial (ha _))
    (fun hr hm => hm.snoc_plain hr rfl) fun hr hm => hm.snoc_plain hr rfl

/-! ## Calls that change the breakpoints -/

theorem accepted_of_replyTo {op : Opcode} {bytes : Bytes} {reply : Wire.Reply}
    (h : Op.replyTo op bytes = .ok reply) : (Outcome.reply bytes).accepted op = true := by
  simp [Outcome.accepted, h, Except.isOk, Except.toBool]

/-- A request that removes no single breakpoint removes nothing unknown. -/
theorem Mirrored.sent_other {c : Option Call} {h : History} {s : Session} {p : Wire.Packet}
    (hm : Mirrored h s) (hp : p.opcode ≠ Opcode.removeBreakpoint) :
    Mirrored (h ++ [⟨c, s, .sent p.encode⟩]) s where
  ledger_eq := by rw [ledger_snoc]; exact hm.ledger_eq
  distinct := hm.distinct
  removes := hm.removes.snoc fun payload heq => by
    simp only [Happening.sent.injEq] at heq
    exact absurd (List.cons.inj heq).1 hp

/-- The request of an edit that fits removes nothing unknown. -/
theorem Mirrored.sent_edit {c : Option Call} {h : History} {s : Session} {edit : Edit}
    (hm : Mirrored h s) (he : edit.Fits s.breakpoints) :
    Mirrored (h ++ [⟨c, s, .sent edit.packet.encode⟩]) s := by
  cases edit with
  | add l =>
    have hne : Opcode.addBreakpoint ≠ Opcode.removeBreakpoint := by decide
    exact hm.sent_other hne
  | remove l =>
    refine ⟨by rw [ledger_snoc]; exact hm.ledger_eq, hm.distinct, ?_⟩
    refine hm.removes.snoc fun payload heq => ?_
    simp only [Happening.sent.injEq] at heq
    obtain ⟨-, rfl⟩ := List.cons.inj heq
    rw [hm.ledger_eq]
    exact Multiset.mem_coe.mpr (List.mem_map_of_mem he)

/-- A request that fails changes nothing. -/
theorem Mirrored.ended_refused {c : Option Call} {h : History} {s : Session} {p : Wire.Packet}
    {o : Outcome} (hm : Mirrored h s) (ho : o.accepted p.opcode = false) :
    Mirrored (h ++ [⟨c, s, .ended p.encode o⟩]) s where
  ledger_eq := by
    rw [ledger_snoc, ← hm.ledger_eq]
    simp [Wire.Packet.encode, Happening.post, ho]
  distinct := hm.distinct
  removes := hm.removes.snoc fun _ heq => by cases heq

/-- The ledger and the breakpoints take in an accepted edit alike. -/
theorem ledger_eq_apply {payloads : Multiset Bytes} {breakpoints : List Location} {edit : Edit}
    {bytes : Bytes} {reply : Wire.Reply}
    (hl : payloads = (breakpoints.map Location.payload : Multiset Bytes))
    (hk : (breakpoints.map Location.key).Nodup) (he : edit.Fits breakpoints)
    (hr : Op.replyTo edit.packet.opcode bytes = .ok reply) :
    (Happening.ended edit.packet.encode (.reply bytes)).post payloads =
      ((edit.apply breakpoints).map Location.payload : Multiset Bytes) := by
  have hacc := accepted_of_replyTo hr
  cases edit with
  | add l =>
    simp only [Edit.packet, Location.packet] at hacc
    simp only [Edit.packet, Location.packet, Wire.Packet.encode, Happening.post, hacc, if_true,
      Edit.apply, List.map_append, List.map_singleton]
    rw [hl, Multiset.cons_coe]
    exact Multiset.coe_eq_coe.mpr (List.perm_append_singleton _ _).symm
  | remove l =>
    simp only [Edit.packet, Location.packet] at hacc
    have hne : Opcode.removeBreakpoint ≠ Opcode.addBreakpoint := by decide
    simp only [Edit.packet, Location.packet, Wire.Packet.encode, Happening.post, hacc, if_true,
      if_neg hne]
    have hperm := (Edit.apply_remove_perm hk he).map Location.payload
    rw [hl, Multiset.coe_eq_coe.mpr hperm, List.map_cons, ← Multiset.cons_coe,
      Multiset.erase_cons_head]

/-- What fits depends on the breakpoints alone, so it outlasts the waits. -/
theorem Mirrored.stable_fitAll (edits : List Edit) :
    Stable fun h s => Mirrored h s ∧ Edit.FitAll s.breakpoints edits := by
  refine Mirrored.stable.and (Stable.of_session (fun _ hf => hf) fun cause hf => ?_)
  simp only [Session.apply]
  split <;> exact hf

namespace Op

/-- Edits that fit are mirrored one by one, wherever carrying them out stops. -/
theorem keeps_carryOut {c : Option Call} (edits : List Edit) :
    (carryOut edits).Keeps c Mirrored
      (fun h s => Mirrored h s ∧ Edit.FitAll s.breakpoints edits) fun _ => Mirrored := by
  induction edits with
  | nil => exact keeps_pure (·.1)
  | cons edit edits ih =>
    have hstable := Mirrored.stable_fitAll (edit :: edits)
    refine keeps_bind (R := fun _ h s =>
        ledger h = ((edit.apply s.breakpoints).map Location.payload : Multiset Bytes) ∧
          ((edit.apply s.breakpoints).map Location.key).Nodup ∧ RemovesKnown h ∧
            Edit.FitAll (edit.apply s.breakpoints) edits) ?_ fun _ => ?_
    · refine keeps_command hstable (·.1) (fun ⟨hm, hf⟩ => ⟨hm.sent_edit hf.1, hf⟩) hstable (·.1)
        (fun ⟨hm, hf⟩ hr => ⟨?_, hf.1.keys_apply hm.distinct, ?_, hf.2⟩)
        fun ⟨hm, _⟩ ho => hm.ended_refused ho
      · rw [ledger_snoc]
        exact ledger_eq_apply hm.ledger_eq hm.distinct hf.1 hr
      · exact hm.removes.snoc fun _ heq => by cases heq
    · refine keeps_bind (R := fun _ h s => Mirrored h s ∧ Edit.FitAll s.breakpoints edits)
        (keeps_act fun ⟨hl, hk, hrem, hf⟩ => ⟨⟨?_, hk, ?_⟩, hf⟩) fun _ => ih
      · rw [ledger_snoc]
        exact hl
      · exact hrem.snoc fun _ heq => by cases heq

theorem keeps_setBreakpoints {c : Option Call} (lines : List UInt32) (source : String) :
    (setBreakpoints lines source).Keeps c Mirrored Mirrored fun _ => Mirrored := by
  refine keeps_bind (keeps_requireLink id) fun _ => ?_
  refine keeps_bind (keeps_session (Q := fun s₀ h s => Mirrored h s ∧ s = s₀)
    fun hm => ⟨hm.1, rfl⟩) fun s₀ => ?_
  refine keeps_bind (R := fun added h s => Mirrored h s ∧
      Edit.FitAll s.breakpoints ((s₀.toRemove lines source).map .remove ++ added.map .add))
    (keeps_ofExcept (·.1) ?_) fun added => ?_
  · rintro added h s ha ⟨hm, rfl⟩
    exact ⟨hm, Session.fitAll_plan hm.distinct ha⟩
  · exact keeps_bind (keeps_carryOut _) fun _ => keeps_pure id

theorem keeps_removeAllBreakpoints {c : Option Call} :
    removeAllBreakpoints.Keeps c Mirrored Mirrored fun _ => Mirrored := by
  refine keeps_bind (keeps_requireLink id) fun _ => ?_
  refine keeps_bind (R := fun _ h _ => ledger h = 0 ∧ RemovesKnown h) ?_ fun _ => ?_
  · refine (keeps_command (P := Mirrored) (Q := fun _ h _ => ledger h = 0 ∧ RemovesKnown h)
      Mirrored.stable id (fun hm => hm.sent_other ?_) Mirrored.stable id
      (fun hm hr => ⟨?_, ?_⟩) fun hm ho => hm.ended_refused ho).mono (·.1) id
    · decide
    · have hacc := accepted_of_replyTo hr
      simp only [Wire.Packet.bare] at hacc
      have h₁ : Opcode.removeAllBreakpoints ≠ Opcode.addBreakpoint := by decide
      have h₂ : Opcode.removeAllBreakpoints ≠ Opcode.removeBreakpoint := by decide
      simp only [ledger_snoc, Wire.Packet.bare, Wire.Packet.encode, Happening.post, hacc, if_true,
        if_neg h₁, if_neg h₂]
    · exact hm.removes.snoc fun _ heq => by cases heq
  · refine keeps_act fun ⟨hl, hrem⟩ => ⟨?_, List.nodup_nil, hrem.snoc fun _ heq => by cases heq⟩
    rw [ledger_snoc]
    exact hl

end Op

/-! ## The law -/

/-- The calls of a client that stays on its connection and sends no bytes of its own making. -/
def Call.Ordinary : Call → Prop
  | .connect | .disconnect | .sendRaw _ => False
  | _ => True

theorem Mirrored.keeps_call {c : Call} (hc : c.Ordinary) :
    Meets (some c) Mirrored Mirrored c.program fun _ => Mirrored := by
  cases c with
  | connect => cases hc
  | disconnect => cases hc
  | sendRaw request => cases hc
  | load registry => exact keeps_of_built (Op.Built.act fun _ => rfl)
  | setBreakpoints lines source => exact (Op.keeps_setBreakpoints lines source).program
  | removeAllBreakpoints => exact Op.keeps_removeAllBreakpoints.program
  | resume => exact keeps_of_built (Op.built_resume (fun _ => rfl) (fun _ => rfl) rfl)
  | stop => exact keeps_of_built (Op.built_stop (fun _ _ => rfl) rfl rfl)
  | stepIn =>
    exact keeps_of_built
      (Op.built_stepIn (fun _ => rfl) (fun _ _ => rfl) (fun _ _ => rfl) rfl rfl rfl)
  | stackFrame index => exact keeps_of_built (Op.built_stackFrame (fun _ _ => rfl) rfl)
  | stackFrames => exact keeps_of_built (Op.built_stackFrames (fun _ _ => rfl) rfl)

/-- On a connection, whatever the calls and the answers of the device, and wherever a call stops :
the payloads of the session's breakpoints are the ledger, no two breakpoints are on one source
line, and every request to remove a breakpoint named one in the ledger. -/
theorem breakpoints_mirror_ledger (s₀ : Session) {h : History} {s : Session}
    (hr : Reaches Call.Ordinary (s₀.apply .connected) h s) :
    ledger h = (s.breakpoints.map Location.payload : Multiset Bytes) ∧
      (s.breakpoints.map fun b => (b.source, b.line)).Nodup ∧
      ∀ pre m post payload, h = pre ++ m :: post →
        m.what = .sent (Opcode.removeBreakpoint :: payload) → payload ∈ ledger pre := by
  have h₀ : Mirrored [] (s₀.apply .connected) := by
    refine ⟨rfl, List.nodup_nil, ?_⟩
    intro pre m post payload heq
    simp at heq
  have hm := hr.keeps h₀ Mirrored.stable fun _ => Mirrored.keeps_call
  exact ⟨hm.ledger_eq, hm.distinct, hm.removes⟩

/-- Two breakpoints are set, the class is loaded anew with its code elsewhere, and a request that
names one of the two lines removes the other under the payload that added it. -/
theorem breakpoints_mirror_ledger_after_reload :
    let s₀ := (Session.new {} (by decide)).apply (.loaded (.twoLines 0))
    let r := (s₀.apply .connected).replay
      [(.setBreakpoints [5, 6] "A.java", [.reply [2, 0], .reply [2, 0]]),
        (.load (.twoLines 8), []), (.setBreakpoints [6] "A.java", [.reply [3, 0]])]
    Reaches Call.Ordinary (s₀.apply .connected) r.1 r.2 ∧ r.2.breakpoints.length = 1 ∧
      ledger r.1 = (r.2.breakpoints.map Location.payload : Multiset Bytes) ∧
      (r.2.breakpoints.map fun b => (b.source, b.line)).Nodup ∧ RemovesKnown r.1 := by
  intro s₀ r
  have hr : Reaches Call.Ordinary (s₀.apply .connected) r.1 r.2 :=
    Reaches.replay _ _ (by simp [Call.Ordinary])
  exact ⟨hr, by decide +kernel, breakpoints_mirror_ledger s₀ hr⟩

end RemoteDebug
