import RemoteDebug.Proofs.Registrations

/-!
# The order of registrations

A registry keeps its classes in the order in which they were registered, and both lookups go through
them in that order : `Registry.lineAt` takes the first class of a name, `Registry.locate` the first
of the smallest instructions. Still the order hardly shows. Classes of different names do not take
each other's place, so two orders of the same registrations lead to the same classes in two orders.
Of one name there is only one class, wherever it stands (`filter_eq_of_perm`), and a smallest
instruction is as small in one order as in the other. What can differ is which of several classes an
equally small instruction is taken from (`Registry.resolve_any_order`).
-/

namespace RemoteDebug

/-- What has a key of its own is found by it in any order. -/
theorem filter_eq_of_perm {α κ : Type} [DecidableEq κ] {key : α → κ} {as bs : List α}
    (hperm : as.Perm bs) (hkeys : (as.map key).Nodup) (k : κ) :
    as.filter (key · == k) = bs.filter (key · == k) := by
  have hfilter := hperm.filter (key · == k)
  have hall : ∀ a ∈ as.filter (key · == k), key a = k :=
    fun a ha => eq_of_beq (List.mem_filter.mp ha).2
  have hnodup : ((as.filter (key · == k)).map key).Nodup :=
    hkeys.sublist (List.filter_sublist.map _)
  cases hlist : as.filter (key · == k) with
  | nil =>
    rw [hlist] at hfilter
    exact hfilter.nil_eq
  | cons a rest =>
    rw [hlist] at hfilter hall hnodup
    -- A second element of the key would repeat it.
    have hrest : rest = [] := by
      cases rest with
      | nil => rfl
      | cons b rest =>
        have hab : key a = key b := (hall a (by simp)).trans (hall b (by simp)).symm
        simp [hab] at hnodup
    rw [hrest] at hfilter ⊢
    exact List.singleton_perm.mp hfilter

/-- What is made of elements is picked out by picking out the elements. -/
theorem filter_flatMap_eq {α β : Type} {f : α → List β} {p : β → Bool} {q : α → Bool}
    (h : ∀ a, ∀ b ∈ f a, p b = q a) (as : List α) :
    (as.flatMap f).filter p = (as.filter q).flatMap f := by
  induction as with
  | nil => rfl
  | cons a as ih =>
    rw [List.flatMap_cons, List.filter_append, ih]
    by_cases ha : q a = true
    · have hall : (f a).filter p = f a :=
        List.filter_eq_self.mpr fun b hb => (h a b hb).trans ha
      rw [hall, List.filter_cons_of_pos ha, List.flatMap_cons]
    · have hnone : (f a).filter p = [] :=
        List.filter_eq_nil_iff.mpr fun b hb => by rwa [h a b hb]
      rw [hnone, List.filter_cons_of_neg ha, List.nil_append]

/-- Entries with names of their own are all current. -/
theorem current_of_nodup {cs : List LoadedClass} (h : (cs.map (·.name)).Nodup) :
    current cs = cs := by
  induction cs with
  | nil => rfl
  | cons c cs ih =>
    rw [List.map_cons, List.nodup_cons] at h
    rw [current, if_neg h.1, ih h.2]

namespace Location

/-- The first location comes before the second. -/
def sooner (l m : Location) : Bool := l.pc < m.pc

theorem sooner_asymm {l m : Location} (h : l.sooner m = true) : m.sooner l = false := by
  simp only [sooner, decide_eq_true_eq, decide_eq_false_iff_not, UInt32.lt_iff_toNat_lt] at h ⊢
  omega

theorem sooner_trans {l m n : Location} (h₁ : l.sooner m = false) (h₂ : m.sooner n = false) :
    l.sooner n = false := by
  simp only [sooner, decide_eq_false_iff_not, UInt32.lt_iff_toNat_lt] at h₁ h₂ ⊢
  omega

/-- Nothing comes before the first best. -/
theorem not_sooner_of_firstBest {ls : List Location} {l m : Location}
    (h : firstBest sooner ls = some l) (hm : m ∈ ls) : m.sooner l = false :=
  @firstBest_not_better _ sooner sooner_asymm sooner_trans ls l m h hm

/-- The first best of some locations is the first best of those in its class. -/
theorem firstBest_sooner_filter {ls : List Location} {l : Location} {name : String}
    (h : firstBest sooner ls = some l) (hl : l.className = name) :
    firstBest sooner (ls.filter (·.className == name)) = some l :=
  @firstBest_filter _ sooner (·.className == name) sooner_asymm sooner_trans ls l h
    (beq_iff_eq.mpr hl)

theorem pc_eq_of_not_sooner {l m : Location} (h₁ : l.sooner m = false) (h₂ : m.sooner l = false) :
    l.pc = m.pc := by
  simp only [sooner, decide_eq_false_iff_not, UInt32.lt_iff_toNat_lt] at h₁ h₂
  exact UInt32.toNat_inj.mp (by omega)

end Location

namespace Registry

variable {r r' : Registry}

/-! ## Lines of instructions -/

/-- The line of an instruction depends on the classes of its class name only. -/
theorem lineAt_congr {className : String}
    (h : r.classes.filter (·.name == normalize className) =
      r'.classes.filter (·.name == normalize className)) (pc : UInt32)
    (methodName descriptor : String) :
    r.lineAt pc className methodName descriptor = r'.lineAt pc className methodName descriptor := by
  have hfind : r.classes.find? (·.name == normalize className) =
      r'.classes.find? (·.name == normalize className) := by
    rw [← List.head?_filter, h, List.head?_filter]
  unfold lineAt
  dsimp only
  rw [hfind]

/-! ## Instructions of lines -/

theorem locate_eq (r : Registry) (line : UInt32) (source : String) :
    r.locate line source =
      if line.toNat < 65536 then
        match firstBest Location.sooner (r.candidates line.toUInt16 source) with
        | some l => .ok l
        | none => .error (.line line source)
      else .error (.line line source) :=
  rfl

theorem locate_eq_ok_iff {line : UInt32} {source : String} {l : Location} :
    r.locate line source = .ok l ↔ line.toNat < 65536 ∧
      firstBest Location.sooner (r.candidates line.toUInt16 source) = some l := by
  rw [locate_eq]
  split
  · next hline =>
    split
    · next hbest => simp [hline, hbest]
    · next hbest => simp [hbest]
  · next hline => simp [hline]

theorem locate_eq_error_iff {line : UInt32} {source : String} {e : Unresolved} :
    r.locate line source = .error e ↔ e = .line line source ∧
      (line.toNat < 65536 → r.candidates line.toUInt16 source = []) := by
  rw [locate_eq, ← @firstBest_eq_none_iff _ Location.sooner]
  split
  · next hline =>
    split
    · next hbest => simp [hline, hbest]
    · next hbest => simp [hbest, eq_comm]
  · next hline => simp [hline, eq_comm]

/-- The candidates of one class are those of a registry without the others. -/
theorem filter_candidates (r : Registry) (line : UInt16) (source name : String) :
    (r.candidates line source).filter (·.className == name) =
      { r with classes := r.classes.filter (·.name == name) }.candidates line source := by
  unfold candidates
  rw [filter_flatMap_eq (q := (·.name == name)), List.filter_comm]
  intro c l hl
  obtain ⟨m, -, hm⟩ := List.mem_filterMap.mp hl
  obtain ⟨pc, -, hl⟩ := Option.bind_eq_some_iff.mp hm
  rw [← Option.some.inj hl]

/-- The same classes in two orders have the same candidates in two orders. -/
theorem candidates_perm (h : r.classes.Perm r'.classes) (line : UInt16) (source : String) :
    (r.candidates line source).Perm (r'.candidates line source) :=
  (h.filter _).flatMap_right _

/-- Where two registries with the same classes find a line, they find it at the same instruction,
and if they find it in the same class they find it in the same method. -/
theorem locate_of_perm (hperm : r.classes.Perm r'.classes) (hnames : (r.classes.map (·.name)).Nodup)
    {line : UInt32} {source : String} {l l' : Location} (hl : r.locate line source = .ok l)
    (hl' : r'.locate line source = .ok l') :
    l.pc = l'.pc ∧ (l.className = l'.className → l = l') := by
  obtain ⟨-, hbest⟩ := locate_eq_ok_iff.mp hl
  obtain ⟨-, hbest'⟩ := locate_eq_ok_iff.mp hl'
  have hcandidates := candidates_perm hperm line.toUInt16 source
  constructor
  · refine Location.pc_eq_of_not_sooner ?_ ?_
    · exact Location.not_sooner_of_firstBest hbest' (hcandidates.mem_iff.mp (firstBest_mem hbest))
    · exact Location.not_sooner_of_firstBest hbest (hcandidates.mem_iff.mpr (firstBest_mem hbest'))
  · intro hname
    -- Both are the first best of the candidates of their class, which are the same in both.
    have hown := Location.firstBest_sooner_filter hbest rfl
    have hown' := Location.firstBest_sooner_filter hbest' hname.symm
    have hclass := filter_eq_of_perm hperm hnames l.className
    rw [filter_candidates] at hown hown'
    unfold candidates at hown hown'
    dsimp only at hown hown'
    rw [hclass, hown'] at hown
    exact (Option.some.inj hown).symm

/-! ## Both -/

/-- The same classes, registered in two orders under names of their own, in whatever ways and with
whatever failures in between : every instruction belongs to the same line in both registries. A line
is found in both or in neither, and where it is found it is at the same instruction of the same
source. Only the class that the instruction is taken from may differ. -/
theorem resolve_any_order {root root' : Option String} {xs ys : List Registration}
    (hperm : (registered root xs).Perm (registered root' ys))
    (hnames : ((registered root xs).map (·.name)).Nodup) :
    let r := (empty root).after xs
    let r' := (empty root').after ys
    (∀ pc className methodName descriptor,
      r.lineAt pc className methodName descriptor =
        r'.lineAt pc className methodName descriptor) ∧
    ∀ line source, match r.locate line source, r'.locate line source with
      | .ok l, .ok l' => l.pc = l'.pc ∧ l.source = l'.source ∧ l.line = l'.line ∧
          (l.className = l'.className → l = l')
      | .error e, .error e' => e = e'
      | _, _ => False := by
  intro r r'
  have hclasses : r.classes = registered root xs := by
    rw [show r = _ from after_empty root xs, current_of_nodup hnames]
  have hclasses' : r'.classes = registered root' ys := by
    rw [show r' = _ from after_empty root' ys, current_of_nodup ((hperm.map _).nodup_iff.mp hnames)]
  rw [← hclasses] at hnames hperm
  rw [← hclasses'] at hperm
  refine ⟨fun pc className => lineAt_congr (filter_eq_of_perm hperm hnames _) pc,
    fun line source => ?_⟩
  have hcandidates := candidates_perm hperm line.toUInt16 source
  cases hl : r.locate line source with
  | error e =>
    obtain ⟨rfl, hnone⟩ := locate_eq_error_iff.mp hl
    have hl' : r'.locate line source = .error (.line line source) := by
      refine locate_eq_error_iff.mpr ⟨rfl, fun hline => ?_⟩
      have hnil := hnone hline
      rw [hnil] at hcandidates
      exact hcandidates.nil_eq.symm
    rw [hl']
  | ok l =>
    obtain ⟨hline, hbest⟩ := locate_eq_ok_iff.mp hl
    cases hl' : r'.locate line source with
    | error e =>
      obtain ⟨-, hnone⟩ := locate_eq_error_iff.mp hl'
      rw [hnone hline] at hcandidates
      exact absurd (hcandidates.mem_iff.mp (firstBest_mem hbest)) List.not_mem_nil
    | ok l' =>
      obtain ⟨hpc, hsame⟩ := locate_of_perm hperm hnames hl hl'
      obtain ⟨c, -, m, -, pc, hc, -, rfl⟩ := mem_candidates (mem_candidates_of_locate hl)
      obtain ⟨c', -, m', -, pc', hc', -, rfl⟩ := mem_candidates (mem_candidates_of_locate hl')
      exact ⟨hpc, hc.trans hc'.symm, rfl, hsame⟩

/-- A class with one method, which has line 5 at its first instruction. -/
def single (name : String) : ClassFile :=
  { scattered with
    pool := ⟨#[.utf8 name, .classRef 1]⟩
    methods := [⟨0, "run", "()V", some ⟨0, 0, [], some [⟨0, 5⟩]⟩⟩] }

/-- Two classes have the same line of a source at equally small instructions. The order decides
which of them it is found in, and nothing else. -/
theorem resolve_any_order_tie :
    let a := Registration.given (single "A") (some "Both.java")
    let b := Registration.given (single "B") (some "Both.java")
    let r := (empty none).after [a, b]
    let r' := (empty none).after [b, a]
    let l : Location := ⟨"Both.java", 5, 0, "A", "run", "()V"⟩
    let l' : Location := ⟨"Both.java", 5, 0, "B", "run", "()V"⟩
    (registered none [a, b]).Perm (registered none [b, a]) ∧
      ((registered none [a, b]).map (·.name)).Nodup ∧
      r.lineAt 3 "A" "run" "()V" = r'.lineAt 3 "A" "run" "()V" ∧
      r.locate 5 "Both.java" = .ok l ∧ r'.locate 5 "Both.java" = .ok l' ∧
      (l.pc = l'.pc ∧ l.source = l'.source ∧ l.line = l'.line ∧
        (l.className = l'.className → l = l')) := by
  intro a b r r' l l'
  have ha : a.entry none = .ok ⟨"A", "Both.java", single "A"⟩ := by decide +kernel
  have hb : b.entry none = .ok ⟨"B", "Both.java", single "B"⟩ := by decide +kernel
  have hab : registered none [a, b] =
      [⟨"A", "Both.java", single "A"⟩, ⟨"B", "Both.java", single "B"⟩] := by
    simp [registered, ha, hb, Except.toOption]
  have hba : registered none [b, a] =
      [⟨"B", "Both.java", single "B"⟩, ⟨"A", "Both.java", single "A"⟩] := by
    simp [registered, ha, hb, Except.toOption]
  have hperm : (registered none [a, b]).Perm (registered none [b, a]) := by
    rw [hab, hba]
    exact .swap _ _ _
  have hnames : ((registered none [a, b]).map (·.name)).Nodup := by
    rw [hab]
    decide
  have hl : r.locate 5 "Both.java" = .ok l := by
    rw [show r = _ from after_empty none [a, b], hab]
    decide +kernel
  have hl' : r'.locate 5 "Both.java" = .ok l' := by
    rw [show r' = _ from after_empty none [b, a], hba]
    decide +kernel
  obtain ⟨hlines, hlocations⟩ := resolve_any_order hperm hnames
  have hsame := hlocations 5 "Both.java"
  rw [show ((empty none).after [a, b]).locate 5 "Both.java" = _ from hl,
    show ((empty none).after [b, a]).locate 5 "Both.java" = _ from hl'] at hsame
  exact ⟨hperm, hnames, hlines _ _ _ _, hl, hl', hsame⟩

end Registry

end RemoteDebug
