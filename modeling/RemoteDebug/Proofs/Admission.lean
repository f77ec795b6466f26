import RemoteDebug.Proofs.Fairness

/-!
# Who is admitted by a gate, and when

`Gate.Orderly` is the invariant of a gate over a fair semaphore. `Gate.Serves` lists the ways in
which a request is served, and each of them keeps the invariant (`Gate.Serves.orderly`). So it holds
after any requests, with polls at any time (`Gate.discipline`).
-/

namespace RemoteDebug.Semaphore

variable {σ : Type} {S : Semaphore σ} {view : σ → View}

namespace Gate

variable {g g' : Gate σ} {r : Request} {d e : Record} {capacity t : Nat}

/-! ## One request -/

/-- The request names a call that it cannot be about. -/
def Ignores (g : Gate σ) : Request → Prop
  | .poll t | .cancel t => t ∉ g.waiting
  | .release t => t ∉ g.holders
  | _ => False

/-- The ways in which a gate serves a request. -/
inductive Serves (view : σ → View) (g : Gate σ) : Request → Gate σ → Record → Prop where
  | taken {s : σ} {n : Nat} (ha : (view g.permits).available = n + 1)
      (hv : view s = { view g.permits with available := n }) :
      Serves view g .tryAcquire ⟨s, g.holders ++ [g.calls], g.waiting, g.calls + 1⟩
        { taken := [g.calls] }
  | denied {s : σ} (hv : view s = view g.permits) :
      Serves view g .tryAcquire ⟨s, g.holders, g.waiting, g.calls + 1⟩ {}
  | admitted {s : σ} {n : Nat} (hc : (view g.permits).closed = false)
      (ha : (view g.permits).available = n + 1)
      (hv : view s = { view g.permits with available := n }) :
      Serves view g .acquire ⟨s, g.holders ++ [g.calls], g.waiting, g.calls + 1⟩
        { started := [g.calls], ended := [(g.calls, .ok ())] }
  | joined {s : σ} (hc : (view g.permits).closed = false) (ha : (view g.permits).available = 0)
      (hv : view s = { view g.permits with line := (view g.permits).line ++ [g.calls] }) :
      Serves view g .acquire ⟨s, g.holders, g.waiting ++ [g.calls], g.calls + 1⟩
        { started := [g.calls] }
  | refused {s : σ} (hc : (view g.permits).closed = true) (hv : view s = view g.permits) :
      Serves view g .acquire ⟨s, g.holders, g.waiting, g.calls + 1⟩
        { started := [g.calls], ended := [(g.calls, .error .connectionClosed)] }
  | promoted {s : σ} {t : Nat} (hc : (view g.permits).closed = false) (ht : t ∈ g.waiting)
      (hg : t ∈ (view g.permits).given)
      (hv : view s = { view g.permits with given := (view g.permits).given.erase t }) :
      Serves view g (.poll t) ⟨s, g.holders ++ [t], g.waiting.erase t, g.calls⟩
        { ended := [(t, .ok ())] }
  | kept {s : σ} {t : Nat} (hl : t ∈ (view g.permits).line) (hv : view s = view g.permits) :
      Serves view g (.poll t) { g with permits := s } {}
  | failed {s : σ} {t : Nat} (hc : (view g.permits).closed = true) (ht : t ∈ g.waiting)
      (hv : (view g.permits).Drops t (view s)) :
      Serves view g (.poll t) ⟨s, g.holders, g.waiting.erase t, g.calls⟩
        { ended := [(t, .error .connectionClosed)] }
  | released {s : σ} {t : Nat} (ht : t ∈ g.holders) (hv : view s = (view g.permits).freed) :
      Serves view g (.release t) ⟨s, g.holders.erase t, g.waiting, g.calls⟩ { returned := [t] }
  | left {s : σ} {t : Nat} (ht : t ∈ g.waiting) (hv : (view g.permits).Drops t (view s)) :
      Serves view g (.cancel t) ⟨s, g.holders, g.waiting.erase t, g.calls⟩ { withdrawn := [t] }
  | shut {s : σ} (hv : view s = { view g.permits with line := [], closed := true }) :
      Serves view g .close { g with permits := s } {}
  | ignored {r : Request} (hr : g.Ignores r) : Serves view g r g {}

/-- The gate is orderly, given the calls that were admitted. -/
def Orderly (view : σ → View) (capacity : Nat) (g : Gate σ) (admitted : List Nat) : Prop :=
  (view g.permits).Orderly capacity g.holders.length g.calls g.waiting admitted

theorem tryAcquire_of_ok (h : (S.tryAcquire g.permits).2 = .ok ()) : g.tryAcquire S =
    (⟨(S.tryAcquire g.permits).1, g.holders ++ [g.calls], g.waiting, g.calls + 1⟩, true) := by
  unfold tryAcquire
  split
  · next hp => rw [hp]
  · next hp =>
    rw [hp] at h
    cases h

theorem tryAcquire_of_error {denial : Denial} (h : (S.tryAcquire g.permits).2 = .error denial) :
    g.tryAcquire S =
      (⟨(S.tryAcquire g.permits).1, g.holders, g.waiting, g.calls + 1⟩, false) := by
  unfold tryAcquire
  split
  · next hp =>
    rw [hp] at h
    cases h
  · next hp => rw [hp]

theorem poll_of_pending (h : (S.poll g.permits t).2 = .pending) :
    g.poll S t = ({ g with permits := (S.poll g.permits t).1 }, none) := by
  unfold poll
  split <;> simp_all

theorem poll_of_ready (h : (S.poll g.permits t).2 = .ready) : g.poll S t =
    (⟨S.abandon (S.poll g.permits t).1 t, g.holders ++ [t], g.waiting.erase t, g.calls⟩,
      some (.ok ())) := by
  unfold poll
  split <;> simp_all

theorem poll_of_closed (h : (S.poll g.permits t).2 = .closed) : g.poll S t =
    (⟨S.abandon (S.poll g.permits t).1 t, g.holders, g.waiting.erase t, g.calls⟩,
      some (.error .connectionClosed)) := by
  unfold poll
  split <;> simp_all

/-- What an attempt to take a permit comes to. -/
theorem tryAcquire_cases (fair : S.Fair view) (g : Gate σ) : ∃ s,
    (((view g.permits).closed = true ∨ (view g.permits).available = 0) ∧
      view s = view g.permits ∧
      g.tryAcquire S = (⟨s, g.holders, g.waiting, g.calls + 1⟩, false)) ∨
    ∃ n, (view g.permits).closed = false ∧ (view g.permits).available = n + 1 ∧
      view s = { view g.permits with available := n } ∧
      g.tryAcquire S = (⟨s, g.holders ++ [g.calls], g.waiting, g.calls + 1⟩, true) := by
  refine ⟨(S.tryAcquire g.permits).1, ?_⟩
  cases hc : (view g.permits).closed with
  | true =>
    obtain ⟨hr, hv⟩ := fair.tryAcquire_closed hc
    exact Or.inl ⟨Or.inl rfl, hv, tryAcquire_of_error hr⟩
  | false =>
    cases ha : (view g.permits).available with
    | zero =>
      obtain ⟨hr, hv⟩ := fair.tryAcquire_none hc ha
      exact Or.inl ⟨Or.inr rfl, hv, tryAcquire_of_error hr⟩
    | succ n =>
      obtain ⟨hr, hv⟩ := fair.tryAcquire_free hc ha
      exact Or.inr ⟨n, rfl, rfl, hv, tryAcquire_of_ok hr⟩

namespace Orderly

variable {admitted : List Nat} (h : g.Orderly view capacity admitted)

include h

/-- A new call is turned down, joins the line or is admitted. -/
theorem acquire_cases (fair : S.Fair view) : ∃ s,
    ((view g.permits).closed = true ∧ view s = view g.permits ∧
      g.acquire S =
        (⟨s, g.holders, g.waiting, g.calls + 1⟩, some (.error .connectionClosed))) ∨
    ((view g.permits).closed = false ∧ (view g.permits).available = 0 ∧
      view s = { view g.permits with line := (view g.permits).line ++ [g.calls] } ∧
      g.acquire S = (⟨s, g.holders, g.waiting ++ [g.calls], g.calls + 1⟩, none)) ∨
    ∃ n, (view g.permits).closed = false ∧ (view g.permits).available = n + 1 ∧
      view s = { view g.permits with available := n } ∧
      g.acquire S =
        (⟨s, g.holders ++ [g.calls], g.waiting, g.calls + 1⟩, some (.ok ())) := by
  obtain ⟨hl, hg⟩ := h.calls_not_mem
  have hwaiting : (g.waiting ++ [g.calls]).erase g.calls = g.waiting := by
    have hnew : g.calls ∉ g.waiting := fun hw => Nat.lt_irrefl _ (h.lt _ hw)
    rw [List.erase_append_right _ hnew, List.erase_cons_head, List.append_nil]
  let called : Gate σ := ⟨g.permits, g.holders, g.waiting ++ [g.calls], g.calls + 1⟩
  have hd := fair.abandon (S.poll g.permits g.calls).1 g.calls
  unfold acquire
  cases hc : (view g.permits).closed with
  | true =>
    obtain ⟨hr, hv⟩ := fair.poll_closed hc g.calls
    rw [hv] at hd
    refine ⟨_, Or.inl ⟨rfl, hd.eq_self hl hg, ?_⟩⟩
    rw [poll_of_closed (g := called) hr, hwaiting]
  | false =>
    cases ha : (view g.permits).available with
    | zero =>
      obtain ⟨hr, hv⟩ := fair.poll_joins hc ha hl hg
      exact ⟨_, Or.inr (Or.inl ⟨rfl, rfl, hv, poll_of_pending (g := called) hr⟩)⟩
    | succ n =>
      obtain ⟨hr, hv⟩ := fair.poll_free hc ha hl hg
      rw [hv] at hd
      refine ⟨_, Or.inr (Or.inr ⟨n, rfl, rfl, hd.eq_self hl hg, ?_⟩)⟩
      rw [poll_of_ready (g := called) hr, hwaiting]

/-- A call that waits is turned down, goes on waiting or takes the permit put aside for it. -/
theorem poll_cases (fair : S.Fair view) (ht : t ∈ g.waiting) : ∃ s,
    ((view g.permits).closed = true ∧ (view g.permits).Drops t (view s) ∧
      g.poll S t = (⟨s, g.holders, g.waiting.erase t, g.calls⟩,
        some (.error .connectionClosed))) ∨
    (t ∈ (view g.permits).line ∧ view s = view g.permits ∧
      g.poll S t = ({ g with permits := s }, none)) ∨
    ((view g.permits).closed = false ∧ t ∈ (view g.permits).given ∧
      view s = { view g.permits with given := (view g.permits).given.erase t } ∧
      g.poll S t = (⟨s, g.holders ++ [t], g.waiting.erase t, g.calls⟩, some (.ok ()))) := by
  have hd := fair.abandon (S.poll g.permits t).1 t
  cases hc : (view g.permits).closed with
  | true =>
    obtain ⟨hr, hv⟩ := fair.poll_closed hc t
    rw [hv] at hd
    exact ⟨_, Or.inl ⟨rfl, hd, poll_of_closed hr⟩⟩
  | false =>
    rcases h.covered hc t ht with hl | hg
    · have ha := (h.tight (List.ne_nil_of_mem hl)).1
      obtain ⟨hr, hv⟩ := fair.poll_waits hc ha hl (h.not_mem_given hl)
      exact ⟨_, Or.inr (Or.inl ⟨hl, hv, poll_of_pending hr⟩)⟩
    · obtain ⟨hr, hv⟩ := fair.poll_given hc hg
      rw [hv] at hd
      have hself := hd.eq_self (h.not_mem_line hg) h.nodup.not_mem_erase
      exact ⟨_, Or.inr (Or.inr ⟨rfl, hg, hself, poll_of_ready hr⟩)⟩

theorem serves_step (fair : S.Fair view) (r : Request) :
    Serves view g r (g.step S r).1 (g.step S r).2 := by
  cases r with
  | tryAcquire =>
    rw [step]
    obtain ⟨s, ⟨-, hv, heq⟩ | ⟨n, -, ha, hv, heq⟩⟩ := tryAcquire_cases fair g
    · rw [heq]
      exact .denied hv
    · rw [heq]
      exact .taken ha hv
  | acquire =>
    rw [step]
    obtain ⟨s, ⟨hc, hv, heq⟩ | ⟨hc, ha, hv, heq⟩ | ⟨n, hc, ha, hv, heq⟩⟩ := h.acquire_cases fair
    · rw [heq]
      exact .refused hc hv
    · rw [heq]
      exact .joined hc ha hv
    · rw [heq]
      exact .admitted hc ha hv
  | poll t =>
    by_cases ht : t ∈ g.waiting
    · rw [step, if_pos ht]
      obtain ⟨s, ⟨hc, hv, heq⟩ | ⟨hl, hv, heq⟩ | ⟨hc, hg, hv, heq⟩⟩ := h.poll_cases fair ht
      · rw [heq]
        exact .failed hc ht hv
      · rw [heq]
        exact .kept hl hv
      · rw [heq]
        exact .promoted hc ht hg hv
    · rw [step, if_neg ht]
      exact .ignored ht
  | release t =>
    by_cases ht : t ∈ g.holders
    · rw [step, if_pos ht]
      exact .released ht (fair.release _)
    · rw [step, if_neg ht]
      exact .ignored ht
  | cancel t =>
    by_cases ht : t ∈ g.waiting
    · rw [step, if_pos ht]
      exact .left ht (fair.abandon _ t)
    · rw [step, if_neg ht]
      exact .ignored ht
  | close => exact .shut (fair.close _)

end Orderly

namespace Serves

theorem orderly {admitted : List Nat} (h : Serves view g r g' d)
    (hg : g.Orderly view capacity admitted) :
    g'.Orderly view capacity (admitted ++ d.admitted) := by
  unfold Orderly at hg ⊢
  cases h with
  | taken ha hv =>
    rw [hv, List.length_append]
    exact (hg.take ha).mono (by simp +contextual [Record.admitted])
  | denied hv => simpa [hv, Record.admitted] using hg.called
  | admitted hc ha hv =>
    rw [hv, List.length_append]
    exact hg.take ha
  | joined hc ha hv => simpa [hv, Record.admitted] using hg.join hc ha
  | refused hc hv => simpa [hv, Record.admitted, Except.isOk, Except.toBool] using hg.called
  | promoted hc ht hgiven hv =>
    rw [hv, List.length_append]
    exact hg.promote hgiven
  | kept hl hv => simpa [hv, Record.admitted] using hg
  | failed hc ht hv => simpa [Record.admitted, Except.isOk, Except.toBool] using hg.drop hv
  | @released s t ht hv =>
    have hlen : g.holders.length = (g.holders.erase t).length + 1 := by
      have hpos := List.length_pos_of_mem ht
      rw [List.length_erase_of_mem ht]
      omega
    rw [hlen] at hg
    simpa [hv, Record.admitted] using hg.freed
  | left ht hv => simpa [Record.admitted] using hg.drop hv
  | shut hv => simpa [hv, Record.admitted] using hg.shut
  | ignored hr => simpa [Record.admitted] using hg

/-- A call that was made waits, has its answer or was given up. -/
theorem fates (h : Serves view g r g' d) :
    (d.started ++ g.waiting).Perm (g'.waiting ++ d.ended.map Prod.fst ++ d.withdrawn) := by
  cases h with
  | admitted | joined | refused => simpa using (List.perm_append_singleton _ _).symm
  | promoted _ ht | failed _ ht | left ht =>
    simpa using (List.perm_cons_erase ht).trans (List.perm_append_singleton _ _).symm
  | taken | denied | kept | released | shut | ignored => simp

/-- Those who have a permit were admitted or took one, and have not given it back. -/
theorem holders (h : Serves view g r g' d) :
    (g.holders ++ d.admitted ++ d.taken).Perm (g'.holders ++ d.returned) := by
  cases h with
  | released ht =>
    simpa [Record.admitted]
      using (List.perm_cons_erase ht).trans (List.perm_append_singleton _ _).symm
  | taken | denied | admitted | joined | refused | promoted | kept | failed | left | shut
  | ignored => simp [Record.admitted, Except.isOk, Except.toBool]

theorem started (h : Serves view g r g' d) :
    d.started = [] ∧ g.calls ≤ g'.calls ∨ d.started = [g.calls] ∧ g'.calls = g.calls + 1 := by
  cases h with
  | admitted | joined | refused => exact Or.inr ⟨rfl, rfl⟩
  | taken | denied => exact Or.inl ⟨rfl, Nat.le_succ _⟩
  | promoted | kept | failed | released | left | shut | ignored => exact Or.inl ⟨rfl, Nat.le_refl _⟩

/-- Once the semaphore is closed it stays so, and no call is admitted. -/
theorem closed (h : Serves view g r g' d) (hc : (view g.permits).closed = true) :
    (view g'.permits).closed = true ∧ d.admitted = [] := by
  cases h with
  | taken ha hv => exact ⟨by rw [hv, hc], rfl⟩
  | denied hv => exact ⟨by rw [hv, hc], rfl⟩
  | admitted hopen | joined hopen | promoted hopen =>
    rw [hc] at hopen
    cases hopen
  | refused _ hv => exact ⟨by rw [hv, hc], rfl⟩
  | kept hl hv => exact ⟨by rw [hv, hc], rfl⟩
  | failed _ ht hv => exact ⟨by rw [hv.closed, hc], rfl⟩
  | released ht hv => exact ⟨by rw [hv, View.closed_freed, hc], rfl⟩
  | left ht hv => exact ⟨by rw [hv.closed, hc], rfl⟩
  | shut hv => exact ⟨by rw [hv], rfl⟩
  | ignored hr => exact ⟨hc, rfl⟩

end Serves

/-! ## Any number of requests -/

theorem Record.admitted_append (d e : Record) :
    (d.append e).admitted = d.admitted ++ e.admitted :=
  List.filterMap_append

theorem run_cons (g : Gate σ) (r : Request) (rs : List Request) :
    g.run S (r :: rs) =
      (((g.step S r).1.run S rs).1, (g.step S r).2.append ((g.step S r).1.run S rs).2) := rfl

theorem orderly_new (fair : S.Fair view) (capacity : Nat) :
    (new S capacity).Orderly view capacity [] := by
  unfold Orderly new
  rw [fair.new]
  exact .new capacity

section

variable {admitted : List Nat}

theorem Orderly.step (h : g.Orderly view capacity admitted) (fair : S.Fair view) (r : Request) :
    (g.step S r).1.Orderly view capacity (admitted ++ (g.step S r).2.admitted) :=
  (h.serves_step fair r).orderly h

theorem Orderly.run (h : g.Orderly view capacity admitted) (fair : S.Fair view)
    (rs : List Request) :
    (g.run S rs).1.Orderly view capacity (admitted ++ (g.run S rs).2.admitted) := by
  induction rs generalizing g admitted with
  | nil => simpa [Gate.run, Record.admitted] using h
  | cons r rs ih =>
    rw [run_cons, Record.admitted_append, ← List.append_assoc]
    exact ih (h.step fair r)

theorem Orderly.fates_run (h : g.Orderly view capacity admitted) (fair : S.Fair view)
    (rs : List Request) :
    ((g.run S rs).2.started ++ g.waiting).Perm ((g.run S rs).1.waiting ++
      (g.run S rs).2.ended.map Prod.fst ++ (g.run S rs).2.withdrawn) := by
  induction rs generalizing g admitted with
  | nil => simp [Gate.run]
  | cons r rs ih =>
    have hfirst := (h.serves_step fair r).fates
    have hrest := ih (h.step fair r)
    rw [List.perm_iff_count] at hfirst hrest ⊢
    intro t
    have hfirst := hfirst t
    have hrest := hrest t
    simp only [run_cons, Record.append, List.map_append, List.count_append] at hfirst hrest ⊢
    omega

theorem Orderly.holders_run (h : g.Orderly view capacity admitted) (fair : S.Fair view)
    (rs : List Request) :
    (g.holders ++ (g.run S rs).2.admitted ++ (g.run S rs).2.taken).Perm
      ((g.run S rs).1.holders ++ (g.run S rs).2.returned) := by
  induction rs generalizing g admitted with
  | nil => simp [Gate.run, Record.admitted]
  | cons r rs ih =>
    have hfirst := (h.serves_step fair r).holders
    have hrest := ih (h.step fair r)
    rw [List.perm_iff_count] at hfirst hrest ⊢
    intro t
    have hfirst := hfirst t
    have hrest := hrest t
    rw [run_cons, Record.admitted_append]
    simp only [Record.append, List.count_append] at hfirst hrest ⊢
    omega

/-- Calls have numbers in the order in which they were made. -/
theorem Orderly.started_run (h : g.Orderly view capacity admitted) (fair : S.Fair view)
    (rs : List Request) :
    (g.run S rs).2.started.Pairwise (· < ·) ∧ ∀ t ∈ (g.run S rs).2.started, g.calls ≤ t := by
  induction rs generalizing g admitted with
  | nil => exact ⟨.nil, by simp [Gate.run]⟩
  | cons r rs ih =>
    obtain ⟨hsorted, hge⟩ := ih (h.step fair r)
    rw [run_cons]
    simp only [Record.append]
    rcases (h.serves_step fair r).started with ⟨hnone, hle⟩ | ⟨hone, hcalls⟩
    · rw [hnone]
      exact ⟨hsorted, fun t ht => Nat.le_trans hle (hge t ht)⟩
    · rw [hone, List.singleton_append]
      have hlt : ∀ t ∈ ((g.step S r).1.run S rs).2.started, g.calls < t := by
        intro t ht
        have := hge t ht
        omega
      exact ⟨List.pairwise_cons.mpr ⟨hlt, hsorted⟩,
        List.forall_mem_cons.mpr ⟨Nat.le_refl _, fun t ht => Nat.le_of_lt (hlt t ht)⟩⟩

theorem Orderly.closed_run (h : g.Orderly view capacity admitted) (fair : S.Fair view)
    (hc : (view g.permits).closed = true) (rs : List Request) :
    (view (g.run S rs).1.permits).closed = true ∧ (g.run S rs).2.admitted = [] := by
  induction rs generalizing g admitted with
  | nil => exact ⟨hc, rfl⟩
  | cons r rs ih =>
    obtain ⟨hnext, hnone⟩ := (h.serves_step fair r).closed hc
    obtain ⟨hlast, hrest⟩ := ih (h.step fair r) hnext
    rw [run_cons, Record.admitted_append, hnone, hrest]
    exact ⟨hlast, rfl⟩

/-! ## Polls -/

/-- A poll wakes nobody else, and who still waits after it is in line. -/
theorem Serves.poll (hs : Serves view g (.poll t) g' d) (h : g.Orderly view capacity admitted) :
    (view g'.permits).line = (view g.permits).line ∧ g'.waiting ⊆ g.waiting ∧
      (t ∈ g'.waiting → t ∈ (view g'.permits).line) := by
  have hgone : t ∉ g.waiting.erase t := h.sorted.nodup.not_mem_erase
  cases hs with
  | promoted hc ht hg hv =>
    rw [hv]
    exact ⟨rfl, List.erase_subset, fun ht => absurd ht hgone⟩
  | kept hl hv =>
    rw [hv]
    exact ⟨rfl, List.Subset.refl _, fun _ => hl⟩
  | failed hc ht hv =>
    have hnil := h.line_eq_nil_of_closed hc
    exact ⟨(hv.line_eq_nil hnil).trans hnil.symm, List.erase_subset, fun ht => absurd ht hgone⟩
  | ignored hr => exact ⟨rfl, List.Subset.refl _, fun ht => absurd ht hr⟩

/-- On a closed gate, a poll turns a call down. -/
theorem Serves.poll_closed (hs : Serves view g (.poll t) g' d)
    (h : g.Orderly view capacity admitted) (hc : (view g.permits).closed = true)
    (ht : t ∈ g.waiting) :
    d.ended = [(t, .error .connectionClosed)] ∧ g'.waiting = g.waiting.erase t := by
  cases hs with
  | promoted hopen =>
    rw [hc] at hopen
    cases hopen
  | kept hl =>
    rw [h.line_eq_nil_of_closed hc] at hl
    cases hl
  | failed => exact ⟨rfl, rfl⟩
  | ignored hr => exact absurd ht hr

/-- After polls, of the calls that were polled only those in line still wait. -/
theorem Orderly.polls (h : g.Orderly view capacity admitted) (fair : S.Fair view) (ts : List Nat) :
    (view (g.run S (ts.map .poll)).1.permits).line = (view g.permits).line ∧
      (g.run S (ts.map .poll)).1.waiting ⊆ g.waiting ∧
      ∀ t ∈ ts, t ∈ (g.run S (ts.map .poll)).1.waiting → t ∈ (view g.permits).line := by
  induction ts generalizing g admitted with
  | nil => exact ⟨rfl, List.Subset.refl _, by simp⟩
  | cons t ts ih =>
    obtain ⟨hline, hsub, hstays⟩ := (h.serves_step fair (.poll t)).poll h
    obtain ⟨hlines, hsubs, hstay⟩ := ih (h.step fair (.poll t))
    rw [List.map_cons, run_cons]
    refine ⟨hlines.trans hline, List.Subset.trans hsubs hsub,
      List.forall_mem_cons.mpr ⟨fun ht => ?_, ?_⟩⟩
    · exact hline ▸ hstays (hsubs ht)
    · exact fun u hu hw => hline ▸ hstay u hu hw

/-- On a closed gate, polls turn the calls down one by one. -/
theorem Orderly.polls_closed (h : g.Orderly view capacity admitted) (fair : S.Fair view)
    (hc : (view g.permits).closed = true) {ts : List Nat} (hts : ts.Nodup)
    (hsub : ∀ t ∈ ts, t ∈ g.waiting) :
    (g.run S (ts.map .poll)).2.ended = ts.map (·, .error .connectionClosed) := by
  induction ts generalizing g admitted with
  | nil => rfl
  | cons t ts ih =>
    obtain ⟨hnew, hts⟩ := List.nodup_cons.mp hts
    have ht : t ∈ g.waiting := hsub t List.mem_cons_self
    have hserves := h.serves_step fair (.poll t)
    obtain ⟨hended, hwaiting⟩ := hserves.poll_closed h hc ht
    rw [List.map_cons, run_cons, List.map_cons]
    change _ ++ _ = _
    rw [hended, ih (h.step fair _) (hserves.closed hc).1 hts fun u hu => ?_]
    · rfl
    · rw [hwaiting]
      exact (List.mem_erase_of_ne (ne_of_mem_of_not_mem hu hnew)).mpr
        (hsub u (List.mem_cons_of_mem t hu))

/-! ## Answers -/

/-- Who has to wait is in line. -/
theorem Orderly.poll_eq_none_iff (h : g.Orderly view capacity admitted) (fair : S.Fair view)
    (ht : t ∈ g.waiting) : (g.poll S t).2 = none ↔ t ∈ (view g.permits).line := by
  obtain ⟨s, ⟨hc, -, heq⟩ | ⟨hl, -, heq⟩ | ⟨-, hg, -, heq⟩⟩ := h.poll_cases fair ht
  · simp [heq, h.line_eq_nil_of_closed hc]
  · simp [heq, hl]
  · simp [heq, h.not_mem_line hg]

/-- Who finds a permit had it put aside. -/
theorem Orderly.mem_given_of_poll (h : g.Orderly view capacity admitted) (fair : S.Fair view)
    (ht : t ∈ g.waiting) (hp : (g.poll S t).2 = some (.ok ())) : t ∈ (view g.permits).given := by
  obtain ⟨s, ⟨-, -, heq⟩ | ⟨-, -, heq⟩ | ⟨-, hg, -⟩⟩ := h.poll_cases fair ht
  · rw [heq] at hp
    cases hp
  · rw [heq] at hp
    cases hp
  · exact hg

theorem tryAcquire_eq_true_iff (fair : S.Fair view) (g : Gate σ) :
    (g.tryAcquire S).2 = true ↔ g.isClosed S = false ∧ 0 < g.available S := by
  rw [isClosed, available, fair.isClosed_eq, fair.available_eq]
  obtain ⟨s, ⟨hnone, -, heq⟩ | ⟨n, hc, ha, -, heq⟩⟩ := tryAcquire_cases fair g
  · rw [heq]
    rcases hnone with hc | ha
    · simp [hc]
    · simp [ha]
  · simp [heq, hc, ha]

theorem Orderly.acquire_eq (h : g.Orderly view capacity admitted) (fair : S.Fair view) :
    (g.acquire S).2 =
      if g.isClosed S then some (.error .connectionClosed)
      else if 0 < g.available S then some (.ok ())
      else none := by
  rw [isClosed, available, fair.isClosed_eq, fair.available_eq]
  obtain ⟨s, ⟨hc, -, heq⟩ | ⟨hc, ha, -, heq⟩ | ⟨n, hc, ha, -, heq⟩⟩ := h.acquire_cases fair
  · simp [heq, hc]
  · simp [heq, hc, ha]
  · simp [heq, hc, ha]

/-- On a closed gate, who waits fails. -/
theorem Orderly.poll_of_isClosed (h : g.Orderly view capacity admitted) (fair : S.Fair view)
    (hc : g.isClosed S = true) (ht : t ∈ g.waiting) :
    (g.poll S t).2 = some (.error .connectionClosed) := by
  rw [isClosed, fair.isClosed_eq] at hc
  obtain ⟨s, ⟨-, -, heq⟩ | ⟨hl, -⟩ | ⟨hopen, -⟩⟩ := h.poll_cases fair ht
  · rw [heq]
  · rw [h.line_eq_nil_of_closed hc] at hl
    cases hl
  · rw [hc] at hopen
    cases hopen

/-- A permit that is given back is for the longest waiter. -/
theorem Orderly.poll_release (h : g.Orderly view capacity admitted) (fair : S.Fair view)
    (ht : t ∈ g.waiting) (hp : (g.poll S t).2 = none)
    (hfirst : ∀ u ∈ g.waiting, (g.poll S u).2 = none → t ≤ u) (u : Nat) :
    ((g.release S u).poll S t).2 = some (.ok ()) := by
  have hmem := (h.poll_eq_none_iff fair ht).mp hp
  have hopen := (h.tight (List.ne_nil_of_mem hmem)).2
  have hfreed := fair.release g.permits
  obtain ⟨first, line, hline⟩ := List.exists_cons_of_ne_nil (List.ne_nil_of_mem hmem)
  have hsub : (first :: line).Sublist g.waiting := hline ▸ h.line
  have hle : t ≤ first := by
    have hw := hsub.subset List.mem_cons_self
    exact hfirst first hw ((h.poll_eq_none_iff fair hw).mpr (hline ▸ List.mem_cons_self))
  have heq : t = first := by
    rw [hline] at hmem
    rcases List.mem_cons.mp hmem with heq | hrest
    · exact heq
    · have hlt := List.rel_of_pairwise_cons (h.sorted.sublist hsub) hrest
      omega
  rw [View.freed, hline] at hfreed
  have hgiven : t ∈ (view (S.release g.permits)).given := by
    rw [hfreed]
    simp [heq]
  have hr := (fair.poll_given (by rw [hfreed]; exact hopen) hgiven).1
  exact congrArg Prod.snd (poll_of_ready (g := g.release S u) hr)

/-- A permit that is given back is free if nobody has to wait. -/
theorem Orderly.available_release (h : g.Orderly view capacity admitted) (fair : S.Fair view)
    (hnone : ∀ t ∈ g.waiting, (g.poll S t).2 ≠ none) (u : Nat) :
    (g.release S u).available S = g.available S + 1 := by
  have hnil : (view g.permits).line = [] := by
    refine List.eq_nil_iff_forall_not_mem.mpr fun t hl => ?_
    have hw := h.line.subset hl
    exact hnone t hw ((h.poll_eq_none_iff fair hw).mpr hl)
  simp only [available, release, fair.available_eq, fair.release, View.freed, hnil]

end

/-! ## The discipline of a gate -/

/-- What holds of a gate with `capacity` permits, given what became of the calls on it. -/
structure Disciplined (S : Semaphore σ) (view : σ → View) (capacity : Nat) (g : Gate σ)
    (d : Record) : Prop where
  /-- Every permit is in use, free, or put aside for a call that is about to be polled. -/
  permits : g.holders.length + (view g.permits).given.length + g.available S = capacity
  given : (view g.permits).given ⊆ g.waiting
  /-- Those who have a permit were admitted or took one, and have not given it back. -/
  holders : (d.admitted ++ d.taken).Perm (g.holders ++ d.returned)
  /-- While a call has to wait, no permit is free and the gate is open. -/
  line : ∀ t ∈ g.waiting, (g.poll S t).2 = none → g.available S = 0 ∧ g.isClosed S = false
  /-- A permit can be taken exactly when the gate is open and one is free. -/
  granted : (g.tryAcquire S).2 = true ↔ g.isClosed S = false ∧ 0 < g.available S
  /-- A new call fails on a closed gate, takes a free permit, and has to wait if there is none. -/
  called : (g.acquire S).2 =
    if g.isClosed S then some (.error .connectionClosed)
    else if 0 < g.available S then some (.ok ())
    else none
  /-- A permit that is given back is for the longest waiter. -/
  handed : ∀ u ∈ g.holders, ∀ t ∈ g.waiting, (g.poll S t).2 = none →
    (∀ t' ∈ g.waiting, (g.poll S t').2 = none → t ≤ t') →
    ((g.release S u).poll S t).2 = some (.ok ())
  /-- A permit that is given back is free if nobody has to wait. -/
  freed : ∀ u ∈ g.holders, (∀ t ∈ g.waiting, (g.poll S t).2 ≠ none) →
    (g.release S u).available S = g.available S + 1
  /-- Calls have numbers in the order in which they were made. -/
  started : d.started.Pairwise (· < ·)
  /-- A call that was made waits, has its answer or was given up. -/
  fates : d.started.Perm (g.waiting ++ d.ended.map Prod.fst ++ d.withdrawn)
  /-- While a call has to wait, no call is admitted that was made after it. -/
  order : ∀ t ∈ g.waiting, (g.poll S t).2 = none → ∀ u,
    u ∈ d.admitted ∨ (u ∈ g.waiting ∧ (g.poll S u).2 = some (.ok ())) → u < t
  close : (g.close S).isClosed S = true
  /-- On a closed gate, all calls that wait fail. -/
  closed : g.isClosed S = true → ∀ t ∈ g.waiting, (g.poll S t).2 = some (.error .connectionClosed)
  /-- Once all calls that wait have been polled, every permit is in use or free, and those that
  still wait have to. -/
  attended : (g.attend S).1.holders.length + (g.attend S).1.available S = capacity ∧
    ((g.attend S).1.waiting ≠ [] →
      (g.attend S).1.available S = 0 ∧ (g.attend S).1.isClosed S = false)
  /-- On a closed gate no call waits after that, since all of them have failed. -/
  failed : g.isClosed S = true → (g.attend S).1.waiting = [] ∧
    (g.attend S).2.ended = g.waiting.map (·, .error .connectionClosed)

section

variable {admitted : List Nat}

/-- After they have been polled, all who wait are in line. -/
theorem Orderly.attend (h : g.Orderly view capacity admitted) (fair : S.Fair view) :
    (g.attend S).1.Orderly view capacity (admitted ++ (g.attend S).2.admitted) ∧
      ∀ t ∈ (g.attend S).1.waiting, t ∈ (view (g.attend S).1.permits).line := by
  obtain ⟨hline, hsub, hstay⟩ := h.polls fair g.waiting
  exact ⟨h.run fair _, fun t ht => hline ▸ hstay t (hsub ht) ht⟩

theorem Orderly.attended (h : g.Orderly view capacity admitted) (fair : S.Fair view) :
    (g.attend S).1.holders.length + (g.attend S).1.available S = capacity ∧
    ((g.attend S).1.waiting ≠ [] →
      (g.attend S).1.available S = 0 ∧ (g.attend S).1.isClosed S = false) := by
  obtain ⟨hlast, hall⟩ := h.attend fair
  have hnone : (view (g.attend S).1.permits).given = [] := by
    refine List.eq_nil_iff_forall_not_mem.mpr fun t ht => ?_
    exact hlast.not_mem_given (hall t (hlast.given t ht)) ht
  have hpermits := hlast.permits
  rw [hnone] at hpermits
  rw [available, isClosed, fair.available_eq, fair.isClosed_eq]
  refine ⟨hpermits, fun hwaiting => hlast.tight ?_⟩
  obtain ⟨t, ht⟩ := List.exists_mem_of_ne_nil _ hwaiting
  exact List.ne_nil_of_mem (hall t ht)

theorem Orderly.failed (h : g.Orderly view capacity admitted) (fair : S.Fair view)
    (hc : g.isClosed S = true) : (g.attend S).1.waiting = [] ∧
      (g.attend S).2.ended = g.waiting.map (·, .error .connectionClosed) := by
  rw [isClosed, fair.isClosed_eq] at hc
  obtain ⟨hlast, hall⟩ := h.attend fair
  have hclosed := (h.closed_run fair hc (g.waiting.map .poll)).1
  refine ⟨List.eq_nil_iff_forall_not_mem.mpr fun t ht => ?_, ?_⟩
  · exact List.ne_nil_of_mem (hall t ht) (hlast.line_eq_nil_of_closed hclosed)
  · exact h.polls_closed fair hc h.sorted.nodup fun t ht => ht

end

theorem Orderly.disciplined (fair : S.Fair view) (h : g.Orderly view capacity d.admitted)
    (hholders : (d.admitted ++ d.taken).Perm (g.holders ++ d.returned))
    (hstarted : d.started.Pairwise (· < ·))
    (hfates : d.started.Perm (g.waiting ++ d.ended.map Prod.fst ++ d.withdrawn)) :
    Disciplined S view capacity g d := by
  constructor
  case permits =>
    rw [available, fair.available_eq]
    exact h.permits
  case given => exact h.given
  case holders => exact hholders
  case line =>
    intro t ht hp
    rw [available, isClosed, fair.available_eq, fair.isClosed_eq]
    exact h.tight (List.ne_nil_of_mem ((h.poll_eq_none_iff fair ht).mp hp))
  case granted => exact tryAcquire_eq_true_iff fair g
  case called => exact h.acquire_eq fair
  case handed => exact fun u _ t ht hp hfirst => h.poll_release fair ht hp hfirst u
  case freed => exact fun u _ hnone => h.available_release fair hnone u
  case started => exact hstarted
  case fates => exact hfates
  case order =>
    intro t ht hp u hu
    refine h.ahead t ((h.poll_eq_none_iff fair ht).mp hp) u (hu.imp_right fun hu => ?_)
    exact h.mem_given_of_poll fair hu.1 hu.2
  case close => rw [isClosed, fair.isClosed_eq, Gate.close, fair.close]
  case closed => exact fun hc t ht => h.poll_of_isClosed fair hc ht
  case attended => exact h.attended fair
  case failed => exact h.failed fair

/-- A gate over a fair semaphore is disciplined after any requests, whenever calls are polled. Once
it is closed it stays so, and nobody is admitted any more, whatever is requested. -/
theorem discipline (fair : S.Fair view) (capacity : Nat) (rs : List Request) :
    Disciplined S view capacity ((new S capacity).run S rs).1 ((new S capacity).run S rs).2 ∧
    (((new S capacity).run S rs).1.isClosed S = true → ∀ more,
      (((new S capacity).run S rs).1.run S more).1.isClosed S = true ∧
      (((new S capacity).run S rs).1.run S more).2.admitted = []) := by
  have hnew := orderly_new fair capacity
  have hlast := hnew.run fair rs
  refine ⟨hlast.disciplined fair ?_ ?_ ?_, fun hclosed more => ?_⟩
  · simpa [new] using hnew.holders_run fair rs
  · exact (hnew.started_run fair rs).1
  · simpa [new] using hnew.fates_run fair rs
  · rw [isClosed, fair.isClosed_eq] at hclosed ⊢
    exact hlast.closed_run fair hclosed more

/-- The gate is closed while a permit is put aside for the last caller, who finds it closed. -/
theorem discipline_closed_in_between :
    let rs : List Request :=
      [.acquire, .acquire, .acquire, .cancel 1, .release 0, .poll 2, .acquire, .release 2, .close]
    let g := ((new fifo 1).run fifo rs).1
    ((new fifo 1).run fifo rs).2.admitted = [0, 2] ∧ g.permits.given = [3] ∧
      (g.poll fifo 3).2 = some (.error .connectionClosed) ∧
      (g.attend fifo).2.ended = [(3, .error .connectionClosed)] ∧
      (g.attend fifo).1.holders.length + (g.attend fifo).1.available fifo = 1 ∧
      (g.run fifo [.poll 3, .acquire]).2.admitted = [] := by
  intro rs g
  obtain ⟨hg, hmore⟩ := discipline fair_fifo 1 rs
  have hclosed : g.isClosed fifo = true := by decide
  have hwaiting : g.waiting = [3] := by decide
  refine ⟨by decide, by decide, hg.closed hclosed 3 (by decide), ?_, hg.attended.1, ?_⟩
  · exact (hg.failed hclosed).2.trans (congrArg _ hwaiting)
  · exact (hmore hclosed [.poll 3, .acquire]).2

/-- Before it is closed, the last caller has to wait, and those admitted were there before. -/
example :
    let rs : List Request :=
      [.acquire, .acquire, .acquire, .cancel 1, .release 0, .poll 2, .acquire]
    let g := ((new fifo 1).run fifo rs).1
    g.waiting = [3] ∧ (g.poll fifo 3).2.isNone ∧ g.available fifo = 0 ∧ g.holders = [2] := by
  decide

end Gate

end RemoteDebug.Semaphore
