/-!
# The first best element of a list

`firstBest better` picks the element that no other is `better` than, the earliest one when several
are equally good.
-/

namespace RemoteDebug

/-- The first element of a list that no later one is better than. -/
def firstBest {α : Type} (better : α → α → Bool) : List α → Option α
  | [] => none
  | a :: as =>
    match firstBest better as with
    | none => some a
    | some b => if better b a then some b else some a

theorem firstBest_mem {α : Type} {better : α → α → Bool} {as : List α} {a : α}
    (h : firstBest better as = some a) : a ∈ as := by
  induction as generalizing a with
  | nil => cases h
  | cons x xs ih =>
    rw [firstBest] at h
    split at h
    · cases h; exact List.mem_cons_self
    · rename_i b hb
      split at h
      · cases h; exact List.mem_cons_of_mem _ (ih hb)
      · cases h; exact List.mem_cons_self

theorem firstBest_eq_none_iff {α : Type} {better : α → α → Bool} {as : List α} :
    firstBest better as = none ↔ as = [] := by
  cases as with
  | nil => simp [firstBest]
  | cons x xs =>
    simp only [firstBest, reduceCtorEq, iff_false]
    split
    · simp
    · split <;> simp

/-- No element is better than the first best, where being better is an order up to ties. -/
theorem firstBest_not_better {α : Type} {better : α → α → Bool}
    (hasymm : ∀ {a b}, better a b = true → better b a = false)
    (htrans : ∀ {a b c}, better a b = false → better b c = false → better a c = false)
    {as : List α} {a b : α} (h : firstBest better as = some a) (hb : b ∈ as) :
    better b a = false := by
  have hrefl (x : α) : better x x = false := by
    cases hx : better x x with
    | false => rfl
    | true => rw [← hx, hasymm hx]
  induction as generalizing a with
  | nil => cases hb
  | cons x xs ih =>
    rw [firstBest] at h
    split at h
    · next hxs =>
      cases h
      rw [firstBest_eq_none_iff.mp hxs, List.mem_singleton] at hb
      rw [hb, hrefl]
    · next c hxs =>
      split at h
      · next hc =>
        cases h
        rcases List.mem_cons.mp hb with rfl | hb
        · exact hasymm hc
        · exact ih hxs hb
      · next hc =>
        cases h
        rcases List.mem_cons.mp hb with rfl | hb
        · exact hrefl b
        · exact htrans (ih hxs hb) (by simpa using hc)

/-- The first best element is better than all before it. -/
theorem firstBest_split {α : Type} {better : α → α → Bool} {as : List α} {a : α}
    (h : firstBest better as = some a) :
    ∃ pre post, as = pre ++ a :: post ∧ ∀ b ∈ pre, better a b = true := by
  induction as generalizing a with
  | nil => cases h
  | cons x xs ih =>
    rw [firstBest] at h
    split at h
    · cases h
      exact ⟨[], xs, rfl, nofun⟩
    · next b hxs =>
      split at h
      · next hb =>
        cases h
        obtain ⟨pre, post, rfl, hpre⟩ := ih hxs
        exact ⟨x :: pre, post, rfl, List.forall_mem_cons.mpr ⟨hb, hpre⟩⟩
      · cases h
        exact ⟨[], xs, rfl, nofun⟩

/-- Among those like it the first best is the first best, too. -/
theorem firstBest_filter {α : Type} {better : α → α → Bool} {p : α → Bool}
    (hasymm : ∀ {a b}, better a b = true → better b a = false)
    (htrans : ∀ {a b c}, better a b = false → better b c = false → better a c = false)
    {as : List α} {a : α} (h : firstBest better as = some a) (ha : p a = true) :
    firstBest better (as.filter p) = some a := by
  induction as generalizing a with
  | nil => cases h
  | cons x xs ih =>
    rw [firstBest] at h
    split at h
    · next hxs =>
      cases h
      rw [firstBest_eq_none_iff.mp hxs, List.filter_cons_of_pos ha, List.filter_nil]
      rfl
    · next b hxs =>
      split at h
      · next hb =>
        cases h
        by_cases hx : p x = true
        · rw [List.filter_cons_of_pos hx, firstBest, ih hxs ha]
          exact if_pos hb
        · rw [List.filter_cons_of_neg hx, ih hxs ha]
      · next hb =>
        cases h
        rw [List.filter_cons_of_pos ha, firstBest]
        split
        · rfl
        · next c hc =>
          -- No element of the tail is better than its best, and that is not better than `x`.
          have hmem : c ∈ xs := (List.mem_filter.mp (firstBest_mem hc)).1
          have hcb : better c b = false := @firstBest_not_better α better hasymm htrans xs b c hxs hmem
          have hcx : better c x = false := htrans hcb (by simpa using hb)
          rw [hcx]
          rfl

end RemoteDebug
