import Mathlib.Data.List.Nodup
import RemoteDebug.Session.Breakpoints

/-!
# The changes that a request for breakpoints works out

A request works out which breakpoints to remove and which to add, and carries the changes out one
by one. An edit fits breakpoints (`Edit.Fits`) if what it removes is there and what it adds is on a
line of its own. Breakpoints on different lines stay on different lines under edits that fit
(`Edit.Fits.keys_apply`), and the edits of a request fit one after the other (`fitAll_plan`). Its
lines are taken in the order in which it names them first (`Session.pairwise_requested`).
-/

namespace RemoteDebug

/-- The source line by which a breakpoint is known. -/
def Location.key (l : Location) : String × UInt32 := (l.source, l.line)

theorem Location.sameLine_iff {l m : Location} : l.sameLine m = true ↔ l.key = m.key := by
  simp [Location.sameLine, Location.isAt, Location.key]

theorem Location.not_sameLine_iff {l m : Location} : (!l.sameLine m) = true ↔ l.key ≠ m.key := by
  rw [Bool.not_eq_true', ← Bool.not_eq_true, Location.sameLine_iff]

/-- The edit removes a breakpoint that is there, or adds one on a line that has none. -/
def Edit.Fits (breakpoints : List Location) : Edit → Prop
  | .add l => l.key ∉ breakpoints.map Location.key
  | .remove l => l ∈ breakpoints

/-- Each edit fits the breakpoints that those before it leave. -/
def Edit.FitAll : List Location → List Edit → Prop
  | _, [] => True
  | breakpoints, edit :: edits => edit.Fits breakpoints ∧ FitAll (edit.apply breakpoints) edits

namespace Edit

theorem fitAll_append {edits edits' : List Edit} : ∀ {breakpoints : List Location},
    FitAll breakpoints (edits ++ edits') ↔
      FitAll breakpoints edits ∧ FitAll (edits.foldl Edit.apply breakpoints) edits' := by
  induction edits with
  | nil => simp [FitAll]
  | cons edit edits ih => simp [FitAll, ih, and_assoc]

/-- Breakpoints on different lines stay on different lines. -/
theorem Fits.keys_apply {breakpoints : List Location} {edit : Edit} (h : edit.Fits breakpoints)
    (hk : (breakpoints.map Location.key).Nodup) :
    ((edit.apply breakpoints).map Location.key).Nodup := by
  cases edit with
  | add l =>
    simp only [Edit.apply, List.map_append, List.map_singleton]
    refine List.nodup_append.mpr ⟨hk, List.nodup_cons.mpr ⟨by simp, List.nodup_nil⟩, ?_⟩
    rintro k hk' _ hl rfl
    rw [List.mem_singleton] at hl
    exact h (hl ▸ hk')
  | remove l => exact hk.sublist (List.filter_sublist.map _)

/-- What a removal takes away is the one breakpoint that it names. -/
theorem apply_remove_perm {breakpoints : List Location} {l : Location}
    (hk : (breakpoints.map Location.key).Nodup) (hl : l ∈ breakpoints) :
    breakpoints.Perm (l :: (Edit.remove l).apply breakpoints) := by
  induction breakpoints with
  | nil => cases hl
  | cons b bs ih =>
    rw [List.map_cons, List.nodup_cons] at hk
    simp only [Edit.apply] at ih ⊢
    rcases List.mem_cons.mp hl with rfl | hl
    · have hall : ∀ b ∈ bs, (!b.sameLine l) = true := by
        intro b hb
        rw [Location.not_sameLine_iff]
        exact fun he => hk.1 (he ▸ List.mem_map_of_mem hb)
      rw [List.filter_cons_of_neg (by simp [Location.sameLine_iff]), List.filter_eq_self.mpr hall]
    · have hne : b.key ≠ l.key := fun he => hk.1 (he ▸ List.mem_map_of_mem hl)
      have hb : (!b.sameLine l) = true := Location.not_sameLine_iff.mpr hne
      rw [List.filter_cons, if_pos hb]
      exact ((ih hk.2 hl).cons b).trans (List.Perm.swap l b _)

/-! ## Removals -/

theorem foldl_remove (locations breakpoints : List Location) :
    (locations.map Edit.remove).foldl Edit.apply breakpoints =
      breakpoints.filter fun b => b.key ∉ locations.map Location.key := by
  induction locations generalizing breakpoints with
  | nil => simp
  | cons l locations ih =>
    rw [List.map_cons, List.foldl_cons, ih, Edit.apply, List.filter_filter]
    refine List.filter_congr fun b _ => ?_
    simp [Bool.and_comm, ← Location.not_sameLine_iff]

theorem mem_foldl_remove {locations breakpoints : List Location} {b : Location} :
    b ∈ (locations.map Edit.remove).foldl Edit.apply breakpoints ↔
      b ∈ breakpoints ∧ b.key ∉ locations.map Location.key := by
  rw [foldl_remove, List.mem_filter, decide_eq_true_iff]

/-- Breakpoints on different lines can be removed one after the other. -/
theorem fitAll_remove {locations : List Location} : ∀ {breakpoints : List Location},
    (locations.map Location.key).Nodup → (∀ l ∈ locations, l ∈ breakpoints) →
      FitAll breakpoints (locations.map Edit.remove) := by
  induction locations with
  | nil => simp [FitAll]
  | cons l locations ih =>
    intro breakpoints hk hl
    rw [List.map_cons, List.nodup_cons] at hk
    refine ⟨hl l (by simp), ih hk.2 fun m hm => ?_⟩
    have hne : m.key ≠ l.key := fun he => hk.1 (he ▸ List.mem_map_of_mem hm)
    exact List.mem_filter.mpr ⟨hl m (by simp [hm]), Location.not_sameLine_iff.mpr hne⟩

/-! ## Additions -/

/-- Breakpoints on different lines that have none can be added one after the other. -/
theorem fitAll_add {locations : List Location} : ∀ {breakpoints : List Location},
    (locations.map Location.key).Nodup →
      (∀ l ∈ locations, l.key ∉ breakpoints.map Location.key) →
        FitAll breakpoints (locations.map Edit.add) := by
  induction locations with
  | nil => simp [FitAll]
  | cons l locations ih =>
    intro breakpoints hk hl
    rw [List.map_cons, List.nodup_cons] at hk
    refine ⟨hl l (by simp), ih hk.2 fun m hm => ?_⟩
    have hne : m.key ≠ l.key := fun he => hk.1 (he ▸ List.mem_map_of_mem hm)
    simp only [Edit.apply, List.map_append, List.map_singleton, List.mem_append,
      List.mem_singleton, not_or]
    exact ⟨hl m (by simp [hm]), hne⟩

end Edit

/-! ## The lines of a request -/

/-- A location that was found is on the line that was asked for. -/
theorem Registry.key_of_locate {r : Registry} {line : UInt32} {source : String} {l : Location}
    (h : r.locate line source = .ok l) : l.key = (source, line) := by
  unfold Registry.locate at h
  split at h
  · next hline =>
    split at h
    · next l' hl =>
      cases h
      have hmem := firstBest_mem hl
      simp only [Registry.candidates, List.mem_flatMap, List.mem_filter, List.mem_filterMap] at hmem
      obtain ⟨c, ⟨-, hc⟩, m, -, hm⟩ := hmem
      obtain ⟨pc, -, hpc⟩ := Option.bind_eq_some_iff.mp hm
      cases hpc
      have hsource : c.source = source := by simpa using hc
      have hn : line.toUInt16.toUInt32 = line := by
        apply UInt32.toNat_inj.mp
        rw [UInt16.toNat_toUInt32, UInt32.toNat_toUInt16]
        exact Nat.mod_eq_of_lt hline
      simp [Location.key, hsource, hn]
    · cases h
  · cases h

theorem Registry.keys_of_mapM_locate {r : Registry} {source : String} {lines : List UInt32} :
    ∀ {locations : List Location},
      (lines.mapM fun line => r.locate line source) = .ok locations →
        locations.map Location.key = lines.map fun line => (source, line) := by
  induction lines with
  | nil =>
    intro locations h
    cases h
    rfl
  | cons line lines ih =>
    intro locations h
    rw [List.mapM_cons] at h
    cases hl : r.locate line source with
    | error e => rw [hl] at h; cases h
    | ok l =>
      cases hls : lines.mapM fun line => r.locate line source with
      | error e => rw [hl, hls] at h; cases h
      | ok ls =>
        rw [hl, hls] at h
        cases h
        simp [Registry.key_of_locate hl, ih hls]

/-- Elements of a list that a filter keeps stay in the order of their first occurrence. -/
theorem idxOf_lt_of_filter {α : Type} [DecidableEq α] {p : α → Bool} {as : List α} {a b : α}
    (ha : p a = true) (hb : p b = true) (h : (as.filter p).idxOf a < (as.filter p).idxOf b) :
    as.idxOf a < as.idxOf b := by
  induction as with
  | nil => exact h
  | cons x as ih =>
    by_cases hx : p x = true
    · rw [List.filter_cons_of_pos hx] at h
      grind
    · have hxa : x ≠ a := fun he => hx (he ▸ ha)
      have hxb : x ≠ b := fun he => hx (he ▸ hb)
      rw [List.filter_cons_of_neg hx] at h
      rw [List.idxOf_cons_ne _ hxa, List.idxOf_cons_ne _ hxb]
      exact Nat.succ_lt_succ (ih h)

namespace Session

/-- The lines of a request come in the order in which it names them first. -/
theorem pairwise_requested (lines : List UInt32) :
    (requested lines).Pairwise fun a b => lines.idxOf a < lines.idxOf b := by
  generalize hn : lines.length = n
  induction n using Nat.strongRecOn generalizing lines with
  | ind n ih =>
    cases lines with
    | nil => exact .nil
    | cons line lines =>
      have hlt : (lines.filter fun x => !x == line).length < n := by
        have := List.length_filter_le (fun x => !x == line) lines
        rw [List.length_cons] at hn
        omega
      have hrest := ih _ hlt (lines.filter fun x => !x == line) rfl
      have hmem {x : UInt32} (hx : x ∈ (lines.filter fun x => !x == line).eraseDups) :
          (!x == line) = true := (List.mem_filter.mp (List.mem_eraseDups.mp hx)).2
      have hne {x : UInt32} (hx : x ∈ (lines.filter fun x => !x == line).eraseDups) :
          line ≠ x := by
        rintro rfl
        simpa using hmem hx
      simp only [requested] at hrest ⊢
      rw [List.eraseDups_cons]
      refine List.pairwise_cons.mpr ⟨fun x hx => ?_, hrest.imp_of_mem fun {a b} ha hb hab => ?_⟩
      · rw [List.idxOf_cons_self, List.idxOf_cons_ne _ (hne hx)]
        exact Nat.succ_pos _
      · rw [List.idxOf_cons_ne _ (hne ha), List.idxOf_cons_ne _ (hne hb)]
        exact Nat.succ_lt_succ (idxOf_lt_of_filter (hmem ha) (hmem hb) hab)

/-- A request names each line once. -/
theorem nodup_requested (lines : List UInt32) : (requested lines).Nodup :=
  (pairwise_requested lines).imp fun hlt => ne_of_apply_ne lines.idxOf (Nat.ne_of_lt hlt)

/-- The edits of a request fit one after the other. -/
theorem fitAll_plan {s : Session} {lines : List UInt32} {source : String} {added : List Location}
    (hk : (s.breakpoints.map Location.key).Nodup)
    (ha : ((s.toAdd lines source).mapM fun line => s.registry.locate line source) = .ok added) :
    Edit.FitAll s.breakpoints
      ((s.toRemove lines source).map Edit.remove ++ added.map Edit.add) := by
  have hkeys := Registry.keys_of_mapM_locate ha
  refine Edit.fitAll_append.mpr ⟨Edit.fitAll_remove ?_ ?_, Edit.fitAll_add ?_ ?_⟩
  · exact hk.sublist (List.filter_sublist.map _)
  · exact fun l hl => (List.mem_filter.mp hl).1
  · rw [hkeys]
    refine List.Pairwise.map _ (fun _ _ (hne : _ ≠ _) he => hne (Prod.mk.inj he).2) ?_
    exact (nodup_requested lines).sublist List.filter_sublist
  · intro l hl hmem
    obtain ⟨b, hb, hbl⟩ := List.mem_map.mp hmem
    have hlk : l.key ∈ (s.toAdd lines source).map fun line => (source, line) :=
      hkeys ▸ List.mem_map_of_mem hl
    obtain ⟨line, hline, he⟩ := List.mem_map.mp hlk
    have hnone := (List.mem_filter.mp hline).2
    simp only [Bool.not_eq_true', List.any_eq_false] at hnone
    refine hnone b (Edit.mem_foldl_remove.mp hb).1 ?_
    have hbk : b.key = (source, line) := hbl.trans he.symm
    simpa [Location.isAt, Location.key] using hbk

end Session

end RemoteDebug
