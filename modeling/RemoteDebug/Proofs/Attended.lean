import Mathlib.Data.List.Perm.Subperm
import RemoteDebug.Gate
import RemoteDebug.Proofs.Admission

/-!
# Gates that are attended to at once

Once every call that waits has been polled, no permit is put aside, and all who wait are in line
(`Gate.Orderly.settled`). From there, a gate over a fair semaphore that is attended to after each
request looks like a gate whose permits go to the first in line at once : the operations of
`RemoteDebug.Gate` say what becomes of its permits and of its calls.
-/

namespace RemoteDebug.Semaphore.Gate

variable {σ : Type} {S : Semaphore σ} {view : σ → View} {g : Gate σ} {capacity t : Nat}

/-- No permit is put aside, and all who wait are in line. -/
structure Settled (view : σ → View) (capacity : Nat) (g : Gate σ) : Prop where
  orderly : g.Orderly view capacity []
  given : (view g.permits).given = []
  line : (view g.permits).line = g.waiting

theorem settled_new (fair : S.Fair view) (capacity : Nat) :
    (new S capacity).Settled view capacity where
  orderly := orderly_new fair capacity
  given := by rw [new, fair.new]
  line := by rw [new, fair.new]

theorem Orderly.settled {admitted : List Nat} (h : g.Orderly view capacity admitted)
    (fair : S.Fair view) : (g.attend S).1.Settled view capacity := by
  obtain ⟨hlast, hall⟩ := h.attend fair
  refine ⟨hlast.mono (by simp), ?_, ?_⟩
  · refine List.eq_nil_iff_forall_not_mem.mpr fun t ht => ?_
    exact hlast.not_mem_given (hall t (hlast.given t ht)) ht
  · exact hlast.line.eq_of_length_le (List.subperm_of_subset hlast.sorted.nodup hall).length_le

/-- What a gate shows of itself. -/
def shown (S : Semaphore σ) (g : Gate σ) : RemoteDebug.Gate Nat :=
  ⟨g.available S, g.holders, g.waiting, g.isClosed S⟩

/-- What the first poll of a call says of it. -/
def admission : Option (Except Failure Unit) → RemoteDebug.Gate.Admission
  | none => .queued
  | some (.ok ()) => .admitted
  | some (.error _) => .refused

theorem shown_new (fair : S.Fair view) (capacity : Nat) :
    (new S capacity).shown S = RemoteDebug.Gate.new capacity := by
  rw [shown, available, isClosed, fair.available_eq, fair.isClosed_eq, new, fair.new]
  rfl

/-! ## Taking a permit -/

theorem shown_tryAcquire (fair : S.Fair view) (g : Gate σ) :
    ((g.tryAcquire S).1.shown S, (g.tryAcquire S).2) = (g.shown S).tryAcquire g.calls := by
  simp only [shown, available, isClosed, fair.available_eq, fair.isClosed_eq]
  obtain ⟨s, ⟨hnone, hv, heq⟩ | ⟨n, hc, ha, hv, heq⟩⟩ := tryAcquire_cases fair g
  · rw [heq, hv, RemoteDebug.Gate.tryAcquire]
    split
    · simp_all
    · rfl
  · rw [heq, hv, hc, ha]
    rfl

theorem shown_acquire (fair : S.Fair view) (h : g.Settled view capacity) :
    ((g.acquire S).1.shown S, admission (g.acquire S).2) = (g.shown S).acquire g.calls := by
  simp only [shown, available, isClosed, fair.available_eq, fair.isClosed_eq]
  obtain ⟨s, ⟨hc, hv, heq⟩ | ⟨hc, ha, hv, heq⟩ | ⟨n, hc, ha, hv, heq⟩⟩ :=
    h.orderly.acquire_cases fair
  · rw [heq, hv, hc]
    rfl
  · rw [heq, hv, hc, ha]
    rfl
  · rw [heq, hv, hc, ha]
    rfl

/-! ## Giving a permit back -/

/-- Polls of calls in line change nothing. -/
theorem Orderly.polls_of_line {admitted : List Nat} (h : g.Orderly view capacity admitted)
    (fair : S.Fair view) {ts : List Nat} (hts : ∀ t ∈ ts, t ∈ (view g.permits).line) :
    ∃ s, view s = view g.permits ∧ g.run S (ts.map .poll) = ({ g with permits := s }, {}) := by
  induction ts generalizing g with
  | nil => exact ⟨g.permits, rfl, rfl⟩
  | cons t ts ih =>
    obtain ⟨ht, hts⟩ := List.forall_mem_cons.mp hts
    have hw := h.line.subset ht
    obtain ⟨s, ⟨hc, -⟩ | ⟨-, hv, heq⟩ | ⟨-, hg, -⟩⟩ := h.poll_cases fair hw
    · rw [h.line_eq_nil_of_closed hc] at ht
      cases ht
    · have hnext : { g with permits := s }.Orderly view capacity admitted := by
        unfold Orderly
        rw [hv]
        exact h
      obtain ⟨s', hv', heq'⟩ := ih hnext (by rw [hv]; exact hts)
      refine ⟨s', hv'.trans hv, ?_⟩
      rw [List.map_cons, run_cons, Gate.step, if_pos hw, heq, heq']
      rfl
    · exact absurd ht (h.not_mem_line hg)

/-- A permit is put aside for the first who waits, and the others are in line. -/
theorem Orderly.attend_of_given {admitted : List Nat} (h : g.Orderly view capacity admitted)
    (fair : S.Fair view) (hc : (view g.permits).closed = false) {first : Nat} {rest : List Nat}
    (hw : g.waiting = first :: rest) (hg : first ∈ (view g.permits).given)
    (hrest : ∀ u ∈ rest, u ∈ (view g.permits).line) :
    ∃ s, view s = { view g.permits with given := (view g.permits).given.erase first } ∧
      g.attend S =
        (⟨s, g.holders ++ [first], rest, g.calls⟩, { ended := [(first, .ok ())] }) := by
  have hfirst : first ∈ g.waiting := by simp [hw]
  obtain ⟨s, ⟨hclosed, -⟩ | ⟨hl, -⟩ | ⟨-, -, hs, heq⟩⟩ := h.poll_cases fair hfirst
  · rw [hc] at hclosed
    cases hclosed
  · exact absurd hg (h.not_mem_given hl)
  have hstep : g.step S (.poll first) =
      (⟨s, g.holders ++ [first], rest, g.calls⟩, { ended := [(first, .ok ())] }) := by
    rw [Gate.step, if_pos hfirst, heq]
    simp [hw]
  have hnext := h.step fair (.poll first)
  rw [hstep] at hnext
  have hstay : ∀ u ∈ rest, u ∈ (view s).line := by simpa [hs] using hrest
  obtain ⟨s', hs', hpolls⟩ := hnext.polls_of_line fair hstay
  refine ⟨s', hs'.trans hs, ?_⟩
  rw [Gate.attend, hw, List.map_cons, run_cons, hstep, hpolls]
  rfl

/-- The permit goes to the first in line. -/
theorem shown_release (fair : S.Fair view) (h : g.Settled view capacity) (ht : t ∈ g.holders) :
    (((g.release S t).attend S).1.shown S, ((g.release S t).attend S).2.admitted) =
      (((g.shown S).release t).1, ((g.shown S).release t).2.toList) := by
  have hserves := h.orderly.serves_step fair (.release t)
  rw [step, if_pos ht] at hserves
  have hreleased : (g.release S t).Orderly view capacity [] := hserves.orderly h.orderly
  have hv : view (g.release S t).permits = (view g.permits).freed := fair.release _
  have hline := h.line
  simp only [shown, available, isClosed, fair.available_eq, fair.isClosed_eq]
  cases hw : g.waiting with
  | nil =>
    have hattend : (g.release S t).attend S = (g.release S t, {}) := by
      rw [attend, show (g.release S t).waiting = [] from hw]
      rfl
    rw [hw] at hline
    rw [hattend, hv, View.freed, hline]
    simp only [release, hw, RemoteDebug.Gate.release]
    rfl
  | cons first rest =>
    rw [hw] at hline
    rw [View.freed, hline, h.given] at hv
    have hopen : (view g.permits).closed = false := (h.orderly.tight (by simp [hline])).2
    obtain ⟨s, hs, hattend⟩ := hreleased.attend_of_given fair (by rw [hv]; exact hopen) hw
      (by simp [hv]) (by simp [hv])
    rw [hv] at hs
    rw [hattend, hs]
    rfl

/-! ## Closing the gate -/

/-- On a closed gate, polls free no permit that is not put aside. -/
theorem Orderly.polls_of_closed {admitted : List Nat} (h : g.Orderly view capacity admitted)
    (fair : S.Fair view) (hc : (view g.permits).closed = true) (hg : (view g.permits).given = [])
    (ts : List Nat) :
    view (g.run S (ts.map .poll)).1.permits = view g.permits ∧
      (g.run S (ts.map .poll)).1.holders = g.holders := by
  induction ts generalizing g admitted with
  | nil => exact ⟨rfl, rfl⟩
  | cons t ts ih =>
    have hserves := h.serves_step fair (.poll t)
    have hstep : view (g.step S (.poll t)).1.permits = view g.permits ∧
        (g.step S (.poll t)).1.holders = g.holders := by
      generalize g.step S (.poll t) = x at hserves
      obtain ⟨g', d⟩ := x
      cases hserves with
      | promoted _ _ hgiven =>
        rw [hg] at hgiven
        cases hgiven
      | kept _ hv => exact ⟨hv, rfl⟩
      | failed _ _ hv =>
        exact ⟨hv.eq_self (by simp [h.line_eq_nil_of_closed hc]) (by simp [hg]), rfl⟩
      | ignored => exact ⟨rfl, rfl⟩
    rw [List.map_cons, run_cons]
    obtain ⟨hv, hholders⟩ := ih (h.step fair (.poll t)) (hstep.1 ▸ hc) (hstep.1 ▸ hg)
    exact ⟨hv.trans hstep.1, hholders.trans hstep.2⟩

/-- All who wait fail, and the permits in use stay so. -/
theorem shown_close (fair : S.Fair view) (h : g.Settled view capacity) :
    ((g.close S).attend S).1.shown S = (g.shown S).close.1 ∧
      ((g.close S).attend S).2.ended = (g.shown S).close.2.map (·, .error .connectionClosed) := by
  have hclosed : (g.close S).Orderly view capacity [] :=
    (h.orderly.serves_step fair .close).orderly h.orderly
  have hv : view (g.close S).permits = { view g.permits with line := [], closed := true } :=
    fair.close _
  have hc : (g.close S).isClosed S = true := by rw [isClosed, fair.isClosed_eq, hv]
  obtain ⟨hwaiting, hended⟩ := hclosed.failed fair hc
  obtain ⟨hview, hholders⟩ := hclosed.polls_of_closed fair (by rw [hv]) (by rw [hv]; exact h.given)
    (g.close S).waiting
  refine ⟨?_, hended⟩
  rw [shown, hwaiting, available, isClosed, fair.available_eq, fair.isClosed_eq, attend, hview, hv,
    hholders, shown, available, fair.available_eq]
  rfl

end RemoteDebug.Semaphore.Gate
