import Mathlib.Data.List.Nodup
import RemoteDebug.Semaphore

/-!
# Fair semaphores

`Semaphore.Fair` is all that is assumed of the semaphore under a gate : what each operation does to
the free permits, to the line of calls that wait and to the permits that are put aside for calls. A
permit that is given back is put aside for the longest waiter, who finds it with its next poll. If
the semaphore is closed before that, the call fails and the permit is given back once more.

`View.Orderly` is an invariant of such a semaphore, with the calls on it. While calls are in line no
permit is free and the semaphore is open, and all calls that were admitted or have a permit put
aside were made before those in line.
-/

namespace RemoteDebug.Semaphore

variable {σ : Type} {S : Semaphore σ} {view : σ → View}

/-! ## Semaphores -/

/-- A call is forgotten. -/
inductive View.Drops (v : View) (t : Nat) : View → Prop where
  /-- It loses its place in line. -/
  | line (hl : t ∈ v.line) (hg : t ∉ v.given) : v.Drops t { v with line := v.line.erase t }
  /-- The permit that was put aside for it is given back. -/
  | given (hg : t ∈ v.given) : v.Drops t { v with given := v.given.erase t }.freed
  | neither (hl : t ∉ v.line) (hg : t ∉ v.given) : v.Drops t v

/-- What a semaphore does, as far as a gate depends on it. The view is what is to be known of its
states. -/
structure Fair (S : Semaphore σ) (view : σ → View) : Prop where
  available_eq (s : σ) : S.available s = (view s).available
  isClosed_eq (s : σ) : S.isClosed s = (view s).closed
  /-- A new semaphore is open, all its permits are free, and nobody waits. -/
  new (n : Nat) : view (S.new n) = ⟨n, [], [], false⟩
  /-- A closed semaphore has no permit to take. -/
  tryAcquire_closed {s : σ} (hc : (view s).closed = true) :
    (S.tryAcquire s).2 = .error .closed ∧ view (S.tryAcquire s).1 = view s
  /-- A semaphore without a free permit has none to take either. -/
  tryAcquire_none {s : σ} (hc : (view s).closed = false) (ha : (view s).available = 0) :
    (S.tryAcquire s).2 = .error .noPermits ∧ view (S.tryAcquire s).1 = view s
  /-- A free permit can be taken. -/
  tryAcquire_free {s : σ} {n : Nat} (hc : (view s).closed = false)
    (ha : (view s).available = n + 1) :
    (S.tryAcquire s).2 = .ok () ∧ view (S.tryAcquire s).1 = { view s with available := n }
  /-- A closed semaphore turns calls down, those that wait and new ones. -/
  poll_closed {s : σ} (hc : (view s).closed = true) (t : Nat) :
    (S.poll s t).2 = .closed ∧ view (S.poll s t).1 = view s
  /-- A new call takes a free permit. -/
  poll_free {s : σ} {t n : Nat} (hc : (view s).closed = false) (ha : (view s).available = n + 1)
    (hl : t ∉ (view s).line) (hg : t ∉ (view s).given) :
    (S.poll s t).2 = .ready ∧ view (S.poll s t).1 = { view s with available := n }
  /-- Without a free permit, a new call joins the line. -/
  poll_joins {s : σ} {t : Nat} (hc : (view s).closed = false) (ha : (view s).available = 0)
    (hl : t ∉ (view s).line) (hg : t ∉ (view s).given) :
    (S.poll s t).2 = .pending ∧ view (S.poll s t).1 = { view s with line := (view s).line ++ [t] }
  /-- A call in line goes on waiting while no permit is free. -/
  poll_waits {s : σ} {t : Nat} (hc : (view s).closed = false) (ha : (view s).available = 0)
    (hl : t ∈ (view s).line) (hg : t ∉ (view s).given) :
    (S.poll s t).2 = .pending ∧ view (S.poll s t).1 = view s
  /-- A call takes the permit that is put aside for it. -/
  poll_given {s : σ} {t : Nat} (hc : (view s).closed = false) (hg : t ∈ (view s).given) :
    (S.poll s t).2 = .ready ∧ view (S.poll s t).1 = { view s with given := (view s).given.erase t }
  /-- A permit that is given back is put aside for the longest waiter. -/
  release (s : σ) : view (S.release s) = (view s).freed
  abandon (s : σ) (t : Nat) : (view s).Drops t (view (S.abandon s t))
  /-- A closed semaphore has no line. The permits that were put aside stay so until the calls they
  are for are polled or forgotten. -/
  close (s : σ) : view (S.close s) = { view s with line := [], closed := true }

theorem fair_fifo : fifo.Fair id where
  available_eq _ := rfl
  isClosed_eq _ := rfl
  new _ := rfl
  tryAcquire_closed {v} hc := by simp_all [fifo]
  tryAcquire_none {v} hc ha := by simp_all [fifo]
  tryAcquire_free {v n} hc ha := by simp_all [fifo]
  poll_closed {v} hc t := by simp_all [fifo]
  poll_free {v t n} hc ha hl hg := by simp_all [fifo]
  poll_joins {v t} hc ha hl hg := by simp_all [fifo]
  poll_waits {v t} hc ha hl hg := by simp_all [fifo]
  poll_given {v t} hc hg := by simp_all [fifo]
  release _ := rfl
  abandon v t := by
    by_cases hg : t ∈ v.given
    · simpa [fifo, hg] using View.Drops.given hg
    by_cases hl : t ∈ v.line
    · simpa [fifo, hg] using View.Drops.line hl hg
    · simpa [fifo, hg, List.erase_of_not_mem hl] using View.Drops.neither hl hg
  close _ := rfl

namespace View

variable {v v' : View} {capacity held calls n t : Nat} {waiting admitted : List Nat}

@[simp]
theorem closed_freed (v : View) : v.freed.closed = v.closed := by
  unfold freed
  split <;> rfl

theorem Drops.closed (h : v.Drops t v') : v'.closed = v.closed := by
  cases h with
  | line => rfl
  | given => rw [closed_freed]
  | neither => rfl

theorem Drops.line_eq_nil (h : v.Drops t v') (hnil : v.line = []) : v'.line = [] := by
  cases h with
  | line => simp [hnil]
  | given => simp [freed, hnil]
  | neither => exact hnil

/-- What is not known need not be forgotten. -/
theorem Drops.eq_self (h : v.Drops t v') (hl : t ∉ v.line) (hg : t ∉ v.given) : v' = v := by
  cases h with
  | line hl' => exact absurd hl' hl
  | given hg' => exact absurd hg' hg
  | neither => rfl

/-! ## The order of calls -/

/-- The invariant of a gate with `capacity` permits, of which `held` are in use. Calls have numbers
below `calls`. Those of `waiting` wait, and those of `admitted` have been admitted. -/
structure Orderly (v : View) (capacity held calls : Nat) (waiting admitted : List Nat) : Prop where
  /-- Every permit is in use, put aside or free. -/
  permits : held + v.given.length + v.available = capacity
  /-- While calls are in line no permit is free, and the semaphore is open. -/
  tight : v.line ≠ [] → v.available = 0 ∧ v.closed = false
  sorted : waiting.Pairwise (· < ·)
  lt : ∀ t ∈ waiting, t < calls
  line : v.line.Sublist waiting
  nodup : v.given.Nodup
  given : ∀ t ∈ v.given, t ∈ waiting
  /-- On an open semaphore, who waits is in line or has a permit put aside. -/
  covered : v.closed = false → ∀ t ∈ waiting, t ∈ v.line ∨ t ∈ v.given
  past : ∀ t ∈ admitted, t < calls
  /-- Who was admitted or has a permit put aside has called before those in line. -/
  ahead : ∀ t ∈ v.line, ∀ u, u ∈ admitted ∨ u ∈ v.given → u < t

namespace Orderly

theorem new (capacity : Nat) : (⟨capacity, [], [], false⟩ : View).Orderly capacity 0 0 [] [] where
  permits := by simp
  tight := by simp
  sorted := .nil
  lt := by simp
  line := .refl []
  nodup := .nil
  given := by simp
  covered := by simp
  past := by simp
  ahead := by simp

variable (h : v.Orderly capacity held calls waiting admitted)

include h

theorem mono {admitted' : List Nat} (ha : ∀ u ∈ admitted', u ∈ admitted) :
    v.Orderly capacity held calls waiting admitted' :=
  { h with
    past := fun u hu => h.past u (ha u hu)
    ahead := fun t ht u hu => h.ahead t ht u (hu.imp_left (ha u)) }

theorem line_eq_nil_of_available (ha : v.available = n + 1) : v.line = [] := by
  by_contra hne
  have := (h.tight hne).1
  omega

theorem line_eq_nil_of_closed (hc : v.closed = true) : v.line = [] := by
  by_contra hne
  have hopen := (h.tight hne).2
  rw [hc] at hopen
  cases hopen

theorem not_mem_given (ht : t ∈ v.line) : t ∉ v.given := fun hg =>
  Nat.lt_irrefl t (h.ahead t ht t (Or.inr hg))

theorem not_mem_line (hg : t ∈ v.given) : t ∉ v.line := fun ht => h.not_mem_given ht hg

theorem calls_not_mem : calls ∉ v.line ∧ calls ∉ v.given :=
  ⟨fun hl => Nat.lt_irrefl _ (h.lt _ (h.line.subset hl)),
    fun hg => Nat.lt_irrefl _ (h.lt _ (h.given _ hg))⟩

theorem mem_erase (ht : t ∈ waiting.erase n) : t ∈ waiting ∧ t ≠ n :=
  ⟨List.mem_of_mem_erase ht, (h.sorted.nodup.mem_erase_iff.mp ht).1⟩

/-- A call is made that does not wait. -/
theorem called : v.Orderly capacity held (calls + 1) waiting admitted :=
  { h with
    lt := fun t ht => Nat.lt_succ_of_lt (h.lt t ht)
    past := fun t ht => Nat.lt_succ_of_lt (h.past t ht) }

/-- A call takes a free permit. Nobody is in line to be passed. -/
theorem take (ha : v.available = n + 1) :
    { v with available := n }.Orderly capacity (held + 1) (calls + 1) waiting
      (admitted ++ [calls]) := by
  have hnil := h.line_eq_nil_of_available ha
  have hpermits := h.permits
  refine { h.called with permits := ?_, tight := ?_, past := ?_, ahead := ?_ }
  · dsimp only
    omega
  · exact fun hne => absurd hnil hne
  · refine List.forall_mem_append.mpr ⟨h.called.past, ?_⟩
    exact List.forall_mem_singleton.mpr (Nat.lt_succ_self calls)
  · intro t ht
    rw [hnil] at ht
    cases ht

/-- A call joins the line. -/
theorem join (hc : v.closed = false) (ha : v.available = 0) :
    { v with line := v.line ++ [calls] }.Orderly capacity held (calls + 1)
      (waiting ++ [calls]) admitted where
  permits := h.permits
  tight _ := ⟨ha, hc⟩
  sorted := by
    refine List.pairwise_append.mpr ⟨h.sorted, List.pairwise_singleton _ _, fun t ht u hu => ?_⟩
    rw [List.mem_singleton.mp hu]
    exact h.lt t ht
  lt := List.forall_mem_append.mpr
    ⟨h.called.lt, List.forall_mem_singleton.mpr (Nat.lt_succ_self calls)⟩
  line := h.line.append_right [calls]
  nodup := h.nodup
  given t ht := List.mem_append_left _ (h.given t ht)
  covered _ := by
    intro t ht
    rcases List.mem_append.mp ht with ht | ht
    · exact (h.covered hc t ht).imp_left (List.mem_append_left _)
    · exact Or.inl (List.mem_append_right _ ht)
  past := h.called.past
  ahead t ht u hu := by
    rcases List.mem_append.mp ht with ht | ht
    · exact h.ahead t ht u hu
    · rw [List.mem_singleton.mp ht]
      exact hu.elim (h.past u) fun hg => h.lt u (h.given u hg)

/-- A call takes the permit that is put aside for it. -/
theorem promote (hg : t ∈ v.given) :
    { v with given := v.given.erase t }.Orderly capacity (held + 1) calls (waiting.erase t)
      (admitted ++ [t]) where
  permits := by
    have hpos := List.length_pos_of_mem hg
    have hpermits := h.permits
    rw [List.length_erase_of_mem hg]
    dsimp only
    omega
  tight := h.tight
  sorted := h.sorted.sublist List.erase_sublist
  lt u hu := h.lt u (List.mem_of_mem_erase hu)
  line := by
    rw [← List.erase_of_not_mem (h.not_mem_line hg)]
    exact h.line.erase t
  nodup := h.nodup.erase t
  given u hu := by
    obtain ⟨hne, hmem⟩ := h.nodup.mem_erase_iff.mp hu
    exact (List.mem_erase_of_ne hne).mpr (h.given u hmem)
  covered hc u hu := by
    obtain ⟨hmem, hne⟩ := h.mem_erase hu
    exact (h.covered hc u hmem).imp_right (List.mem_erase_of_ne hne).mpr
  past := List.forall_mem_append.mpr
    ⟨h.past, List.forall_mem_singleton.mpr (h.lt t (h.given t hg))⟩
  ahead u hu w hw := by
    rcases hw with hw | hw
    · rcases List.mem_append.mp hw with hw | hw
      · exact h.ahead u hu w (Or.inl hw)
      · exact h.ahead u hu w (Or.inr (List.mem_singleton.mp hw ▸ hg))
    · exact h.ahead u hu w (Or.inr (List.mem_of_mem_erase hw))

/-- A call that is neither in line nor has a permit put aside waits no longer. -/
theorem leave (hl : t ∉ v.line) (hg : t ∉ v.given) :
    v.Orderly capacity held calls (waiting.erase t) admitted :=
  { h with
    sorted := h.sorted.sublist List.erase_sublist
    lt := fun u hu => h.lt u (List.mem_of_mem_erase hu)
    line := List.erase_of_not_mem hl ▸ h.line.erase t
    given := fun u hu => (List.mem_erase_of_ne (ne_of_mem_of_not_mem hu hg)).mpr (h.given u hu)
    covered := fun hc u hu => h.covered hc u (List.mem_of_mem_erase hu) }

/-- A call in line waits no longer. -/
theorem leave_line (hl : t ∈ v.line) :
    { v with line := v.line.erase t }.Orderly capacity held calls (waiting.erase t) admitted where
  permits := h.permits
  tight hne := h.tight fun hnil => by simp [hnil] at hl
  sorted := h.sorted.sublist List.erase_sublist
  lt u hu := h.lt u (List.mem_of_mem_erase hu)
  line := h.line.erase t
  nodup := h.nodup
  given u hu :=
    (List.mem_erase_of_ne (ne_of_mem_of_not_mem hu (h.not_mem_given hl))).mpr (h.given u hu)
  covered hc u hu := by
    obtain ⟨hmem, hne⟩ := h.mem_erase hu
    exact (h.covered hc u hmem).imp_left (List.mem_erase_of_ne hne).mpr
  past := h.past
  ahead u hu := h.ahead u (List.mem_of_mem_erase hu)

/-- The semaphore is closed. -/
theorem shut :
    { v with line := [], closed := true }.Orderly capacity held calls waiting admitted where
  permits := h.permits
  tight hne := absurd rfl hne
  sorted := h.sorted
  lt := h.lt
  line := List.nil_sublist _
  nodup := h.nodup
  given := h.given
  covered := nofun
  past := h.past
  ahead := nofun

omit h

/-- A permit is given back. The first in line was the first to call. -/
theorem freed (h : v.Orderly capacity (held + 1) calls waiting admitted) :
    v.freed.Orderly capacity held calls waiting admitted := by
  have hpermits := h.permits
  unfold View.freed
  split
  · next hnil =>
    refine { h with permits := ?_, tight := fun hne => absurd hnil hne }
    dsimp only
    omega
  · next t line hline =>
    have htight := h.tight (by simp [hline])
    have hsorted := List.pairwise_cons.mp (hline ▸ h.sorted.sublist h.line)
    have hsub : (t :: line).Sublist waiting := hline ▸ h.line
    refine { h with
      permits := ?_
      tight := fun _ => htight
      line := (List.sublist_cons_self t line).trans hsub
      nodup := ?_
      given := List.forall_mem_append.mpr
        ⟨h.given, List.forall_mem_singleton.mpr (hsub.subset List.mem_cons_self)⟩
      covered := fun hc u hu => ?_
      ahead := fun u hu w hw => ?_ }
    · rw [List.length_append, List.length_singleton]
      dsimp only
      omega
    · have ht := h.not_mem_given (t := t) (by simp [hline])
      exact List.nodup_append.mpr ⟨h.nodup, List.nodup_singleton t, fun a ha b hb => by
        rw [List.mem_singleton.mp hb]
        exact ne_of_mem_of_not_mem ha ht⟩
    · have hcases := h.covered hc u hu
      rw [hline, List.mem_cons] at hcases
      simp only [List.mem_append, List.mem_singleton]
      tauto
    · have hmem : u ∈ v.line := hline ▸ List.mem_cons_of_mem t hu
      rcases hw with hw | hw
      · exact h.ahead u hmem w (Or.inl hw)
      · rcases List.mem_append.mp hw with hw | hw
        · exact h.ahead u hmem w (Or.inr hw)
        · rw [List.mem_singleton.mp hw]
          exact hsorted.1 u hu

/-- A call is forgotten. -/
theorem drop (h : v.Orderly capacity held calls waiting admitted) (hd : v.Drops t v') :
    v'.Orderly capacity held calls (waiting.erase t) admitted := by
  cases hd with
  | line hl hg => exact h.leave_line hl
  | given hg => exact ((h.promote hg).mono fun u hu => List.mem_append_left _ hu).freed
  | neither hl hg => exact h.leave hl hg

end Orderly

end View

end RemoteDebug.Semaphore
