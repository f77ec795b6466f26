import Mathlib.Data.Prod.Lex
import Mathlib.Order.Bounds.Basic
import RemoteDebug.Proofs.LoadOrder

/-!
# The row that a line is found at

A line of a source may stand in many rows : in the tables of several methods, of several classes,
and more than once in the same table. `Registry.locate` searches them in three loops, one for the
classes, one for their methods and one for the rows of a table. Together these pick one row : that
with the smallest start, and of equally small ones that of the earliest class and of the earliest
method in it. So what is found is the least of all rows of the line, in the lexicographic order of
start, class and method (`Registry.locate_isLeast`).

The order of the loops comes in where a list that a loop makes is split at the element that is
picked. What stands before it comes from earlier classes, or from earlier methods of its class
(`Registry.candidates_split`).
-/

namespace RemoteDebug

/-! ## Where elements of a list come from -/

theorem filter_split {α : Type} {p : α → Bool} {as pre post : List α} {a : α}
    (h : as.filter p = pre ++ a :: post) :
    ∃ as₁ as₂, as = as₁ ++ a :: as₂ ∧ as₁.filter p = pre := by
  obtain ⟨as₁, as₂, rfl, rfl, hrest⟩ := List.filter_eq_append_iff.mp h
  obtain ⟨as₃, as₄, rfl, hnone, -, -⟩ := List.filter_eq_cons_iff.mp hrest
  refine ⟨as₁ ++ as₃, as₄, by simp, ?_⟩
  rw [List.filter_append, List.filter_eq_nil_iff.mpr hnone, List.append_nil]

theorem filterMap_split {α β : Type} {f : α → Option β} {as : List α} {b : β} {pre post : List β}
    (h : as.filterMap f = pre ++ b :: post) :
    ∃ as₁ a as₂, as = as₁ ++ a :: as₂ ∧ f a = some b ∧ as₁.filterMap f = pre := by
  obtain ⟨as₁, as₂, rfl, rfl, hrest⟩ := List.filterMap_eq_append_iff.mp h
  obtain ⟨as₃, a, as₄, rfl, hnone, ha, -⟩ := List.filterMap_eq_cons_iff.mp hrest
  refine ⟨as₁ ++ as₃, a, as₄, by simp, ha, ?_⟩
  rw [List.filterMap_append, List.filterMap_eq_nil_iff.mpr hnone, List.append_nil]

theorem flatMap_split {α β : Type} {f : α → List β} {as : List α} {b : β} {pre post : List β}
    (h : as.flatMap f = pre ++ b :: post) : ∃ as₁ a as₂ pre' post',
      as = as₁ ++ a :: as₂ ∧ f a = pre' ++ b :: post' ∧ pre = as₁.flatMap f ++ pre' := by
  induction as generalizing pre with
  | nil => simp at h
  | cons a as ih =>
    rw [List.flatMap_cons] at h
    rcases List.append_eq_append_iff.mp h with ⟨x, rfl, hx⟩ | ⟨x, hx, hrest⟩
    · obtain ⟨as₁, a', as₂, pre', post', rfl, ha', rfl⟩ := ih hx
      exact ⟨a :: as₁, a', as₂, pre', post', rfl, ha', by simp⟩
    · cases x with
      | nil =>
        have hhead : as.flatMap f = [] ++ b :: post := hrest.symm
        obtain ⟨as₁, a', as₂, pre', post', rfl, ha', he⟩ := ih hhead
        refine ⟨a :: as₁, a', as₂, pre', post', rfl, ha', ?_⟩
        rw [List.flatMap_cons, List.append_assoc, ← he, hx, List.append_nil, List.append_nil]
      | cons y ys =>
        obtain ⟨rfl, -⟩ := List.cons.inj hrest
        exact ⟨[], a, as, pre, ys, rfl, hx, rfl⟩

/-- What stands before a place of a list in two parts stands in the first. -/
theorem mem_of_getElem?_append {α : Type} {as bs : List α} {a : α} {i : Nat}
    (h : (as ++ bs)[i]? = some a) (hi : i < as.length) : a ∈ as := by
  rw [List.getElem?_append_left hi] at h
  exact List.mem_of_getElem? h

/-! ## Rows -/

/-- The first instruction of a line is the smallest start of its rows. -/
theorem ClassFile.Method.firstPc_eq_some_iff {m : Method} {line pc : UInt16} :
    m.firstPc line = some pc ↔ ∃ rows, m.lines = some rows ∧ ⟨pc, line⟩ ∈ rows ∧
      ∀ row ∈ rows, row.line = line → pc ≤ row.startPc := by
  have hmin (rows : List LineEntry) :
      ((rows.filter (·.line == line)).map (·.startPc)).min? = some pc ↔
        ⟨pc, line⟩ ∈ rows ∧ ∀ row ∈ rows, row.line = line → pc ≤ row.startPc := by
    rw [List.min?_eq_some_iff]
    constructor
    · rintro ⟨hmem, hle⟩
      obtain ⟨row, hrow, rfl⟩ := List.mem_map.mp hmem
      obtain ⟨hrow, hline⟩ := List.mem_filter.mp hrow
      refine ⟨eq_of_beq hline ▸ hrow, fun row' hrow' hline' => ?_⟩
      exact hle _ (List.mem_map_of_mem (List.mem_filter.mpr ⟨hrow', beq_iff_eq.mpr hline'⟩))
    · rintro ⟨hmem, hle⟩
      refine ⟨List.mem_map.mpr ⟨⟨pc, line⟩, List.mem_filter.mpr ⟨hmem, by simp⟩, rfl⟩, ?_⟩
      intro start hstart
      obtain ⟨row, hrow, rfl⟩ := List.mem_map.mp hstart
      obtain ⟨hrow, hline⟩ := List.mem_filter.mp hrow
      exact hle row hrow (eq_of_beq hline)
  unfold firstPc
  rw [Option.bind_eq_bind, Option.bind_eq_some_iff]
  exact exists_congr fun rows => and_congr_right fun _ => hmin rows

/-- A line that has a row has a first instruction, which is not past the row. -/
theorem ClassFile.Method.exists_firstPc {m : Method} {rows : List LineEntry} {row : LineEntry}
    (hm : m.lines = some rows) (hrow : row ∈ rows) :
    ∃ pc, m.firstPc row.line = some pc ∧ pc ≤ row.startPc := by
  cases hpc : m.firstPc row.line with
  | some pc =>
    obtain ⟨rows', hrows', -, hle⟩ := firstPc_eq_some_iff.mp hpc
    cases hm.symm.trans hrows'
    exact ⟨pc, rfl, hle row hrow rfl⟩
  | none =>
    simp only [firstPc, hm, Option.bind_eq_bind, Option.bind_some, List.min?_eq_none_iff,
      List.map_eq_nil_iff, List.filter_eq_nil_iff] at hpc
    exact absurd (beq_self_eq_true row.line) (hpc row hrow)

namespace Registry

variable {r : Registry} {line : UInt32} {source : String}

/-- The row is one of the line : it stands in the table of the method at place `j` of the class at
place `i`, which is registered under the source. -/
structure HasRow (r : Registry) (line : UInt32) (source : String) (i j : Nat) (c : LoadedClass)
    (m : ClassFile.Method) (row : ClassFile.LineEntry) : Prop where
  class_at : r.classes[i]? = some c
  source_eq : c.source = source
  method_at : c.file.methods[j]? = some m
  row_mem : ∃ rows, m.lines = some rows ∧ row ∈ rows
  line_eq : row.line.toNat = line.toNat

/-- The starts of the rows of a line, each with the places of its class and of its method. -/
def ranks (r : Registry) (line : UInt32) (source : String) : Set (ℕ ×ₗ ℕ ×ₗ ℕ) :=
  {x | ∃ i j c m row, r.HasRow line source i j c m row ∧
    x = toLex (row.startPc.toNat, toLex (i, j))}

/-- The location that a row is. -/
def site (c : LoadedClass) (m : ClassFile.Method) (row : ClassFile.LineEntry) : Location :=
  ⟨c.source, row.line.toUInt32, row.startPc.toUInt32, c.name, m.name, m.descriptor⟩

/-- A candidate splits the classes and the methods of its class in two. What earlier methods
contribute, of earlier classes or of its own, stands before it. -/
theorem candidates_split {line : UInt16} {l : Location} {pre post : List Location}
    (h : r.candidates line source = pre ++ l :: post) : ∃ cs₁ c cs₂ ms₁ m ms₂ pc,
      r.classes = cs₁ ++ c :: cs₂ ∧ c.source = source ∧ c.file.methods = ms₁ ++ m :: ms₂ ∧
      m.firstPc line = some pc ∧ l = site c m ⟨pc, line⟩ ∧
      (∀ c' ∈ cs₁, c'.source = source → ∀ m' ∈ c'.file.methods, ∀ pc',
        m'.firstPc line = some pc' → site c' m' ⟨pc', line⟩ ∈ pre) ∧
      ∀ m' ∈ ms₁, ∀ pc', m'.firstPc line = some pc' → site c m' ⟨pc', line⟩ ∈ pre := by
  obtain ⟨fs₁, c, fs₂, pre', post', hfilter, hc, rfl⟩ := flatMap_split h
  obtain ⟨cs₁, cs₂, hclasses, rfl⟩ := filter_split hfilter
  obtain ⟨ms₁, m, ms₂, hmethods, hm, rfl⟩ := filterMap_split hc
  obtain ⟨pc, hpc, hl⟩ := Option.bind_eq_some_iff.mp hm
  have hmem : c ∈ r.classes.filter (·.source == source) := by simp [hfilter]
  refine ⟨cs₁, c, cs₂, ms₁, m, ms₂, pc, hclasses, eq_of_beq (List.mem_filter.mp hmem).2, hmethods,
    hpc, (Option.some.inj hl).symm, fun c' hc' hsource m' hm' pc' hpc' => ?_,
    fun m' hm' pc' hpc' => ?_⟩
  · refine List.mem_append_left _ (List.mem_flatMap.mpr ⟨c', ?_, ?_⟩)
    · exact List.mem_filter.mpr ⟨hc', beq_iff_eq.mpr hsource⟩
    · exact List.mem_filterMap.mpr ⟨m', hm', by rw [hpc']; rfl⟩
  · exact List.mem_append_right _ (List.mem_filterMap.mpr ⟨m', hm', by rw [hpc']; rfl⟩)

/-- A method of a class of the source contributes a candidate. -/
theorem site_mem_candidates {line pc : UInt16} {c : LoadedClass} {m : ClassFile.Method}
    (hc : c ∈ r.classes) (hsource : c.source = source) (hm : m ∈ c.file.methods)
    (hpc : m.firstPc line = some pc) : site c m ⟨pc, line⟩ ∈ r.candidates line source := by
  refine List.mem_flatMap.mpr ⟨c, List.mem_filter.mpr ⟨hc, beq_iff_eq.mpr hsource⟩, ?_⟩
  exact List.mem_filterMap.mpr ⟨m, hm, by rw [hpc]; rfl⟩

theorem HasRow.line_eq_toUInt16 {i j : Nat} {c : LoadedClass} {m : ClassFile.Method}
    {row : ClassFile.LineEntry} (h : r.HasRow line source i j c m row) :
    line.toNat < 65536 ∧ row.line = line.toUInt16 := by
  have hlt := row.line.toNat_lt
  have hline := h.line_eq
  refine ⟨by omega, UInt16.toNat_inj.mp ?_⟩
  rw [UInt32.toNat_toUInt16, ← hline]
  omega

/-- A row of a line is not before the candidate of its method. -/
theorem HasRow.exists_candidate {i j : Nat} {c : LoadedClass} {m : ClassFile.Method}
    {row : ClassFile.LineEntry} (h : r.HasRow line source i j c m row) :
    ∃ pc, m.firstPc line.toUInt16 = some pc ∧ pc ≤ row.startPc ∧
      site c m ⟨pc, line.toUInt16⟩ ∈ r.candidates line.toUInt16 source := by
  obtain ⟨rows, hrows, hrow⟩ := h.row_mem
  obtain ⟨pc, hpc, hle⟩ := ClassFile.Method.exists_firstPc hrows hrow
  rw [h.line_eq_toUInt16.2] at hpc
  exact ⟨pc, hpc, hle, site_mem_candidates (List.mem_of_getElem? h.class_at) h.source_eq
    (List.mem_of_getElem? h.method_at) hpc⟩

theorem sooner_site_iff {c c' : LoadedClass} {m m' : ClassFile.Method}
    {row row' : ClassFile.LineEntry} : (site c m row).sooner (site c' m' row') = true ↔
      row.startPc.toNat < row'.startPc.toNat := by
  simp [Location.sooner, site, UInt32.lt_iff_toNat_lt]

/-- What is found is a row of the line, and no other comes before it. -/
theorem exists_isLeast_of_locate {l : Location} (h : r.locate line source = .ok l) :
    ∃ i j c m row, r.HasRow line source i j c m row ∧ l = site c m row ∧
      IsLeast (r.ranks line source) (toLex (row.startPc.toNat, toLex (i, j))) := by
  obtain ⟨hline, hbest⟩ := locate_eq_ok_iff.mp h
  obtain ⟨pre, post, hsplit, hpre⟩ := firstBest_split hbest
  obtain ⟨cs₁, c, cs₂, ms₁, m, ms₂, pc, hclasses, hsource, hmethods, hpc, rfl, hclass, hmethod⟩ :=
    candidates_split hsplit
  obtain ⟨rows, hrows, hrow, -⟩ := ClassFile.Method.firstPc_eq_some_iff.mp hpc
  have hrow : r.HasRow line source cs₁.length ms₁.length c m ⟨pc, line.toUInt16⟩ :=
    { class_at := by simp [hclasses]
      source_eq := hsource
      method_at := by simp [hmethods]
      row_mem := ⟨rows, hrows, hrow⟩
      line_eq := by rw [UInt32.toNat_toUInt16]; omega }
  refine ⟨_, _, c, m, _, hrow, rfl, ⟨_, _, c, m, _, hrow, rfl⟩, ?_⟩
  rintro _ ⟨i, j, c', m', row, hrow', rfl⟩
  obtain ⟨pc', hpc', hle, hmem⟩ := hrow'.exists_candidate
  have hle : pc'.toNat ≤ row.startPc.toNat := UInt16.le_iff_toNat_le.mp hle
  have hfirst : pc.toNat ≤ pc'.toNat := by
    have hlater := Location.not_sooner_of_firstBest hbest hmem
    rw [← Bool.not_eq_true, sooner_site_iff] at hlater
    exact Nat.not_lt.mp hlater
  -- Before the candidate that is picked there are only later instructions.
  have hearlier (hpre' : site c' m' ⟨pc', line.toUInt16⟩ ∈ pre) : pc.toNat < pc'.toNat :=
    sooner_site_iff.mp (hpre _ hpre')
  simp only [Prod.Lex.toLex_le_toLex]
  rcases Nat.lt_trichotomy i cs₁.length with hi | rfl | hi
  · have hc' : c' ∈ cs₁ := mem_of_getElem?_append (hclasses ▸ hrow'.class_at) hi
    have hm' : m' ∈ c'.file.methods := List.mem_of_getElem? hrow'.method_at
    have := hearlier (hclass c' hc' hrow'.source_eq m' hm' _ hpc')
    omega
  · obtain rfl : c = c' := Option.some.inj (hrow.class_at.symm.trans hrow'.class_at)
    by_cases hj : j < ms₁.length
    · have hm' : m' ∈ ms₁ := mem_of_getElem?_append (hmethods ▸ hrow'.method_at) hj
      have := hearlier (hmethod m' hm' _ hpc')
      omega
    · omega
  · omega

/-! ## The law -/

/-- A row in the table of a method of a class of the source has a place. -/
theorem exists_hasRow_iff : (∃ i j c m row, r.HasRow line source i j c m row) ↔
    line.toNat ≤ 65535 ∧ ∃ c ∈ r.classes, c.source = source ∧ ∃ m ∈ c.file.methods, ∃ rows,
      m.lines = some rows ∧ ∃ row ∈ rows, row.line.toNat = line.toNat := by
  constructor
  · rintro ⟨i, j, c, m, row, h⟩
    obtain ⟨rows, hrows, hrow⟩ := h.row_mem
    exact ⟨Nat.le_of_lt_succ h.line_eq_toUInt16.1, c, List.mem_of_getElem? h.class_at, h.source_eq,
      m, List.mem_of_getElem? h.method_at, rows, hrows, row, hrow, h.line_eq⟩
  · rintro ⟨-, c, hc, hsource, m, hm, rows, hrows, row, hrow, hline⟩
    obtain ⟨i, hi⟩ := List.mem_iff_getElem?.mp hc
    obtain ⟨j, hj⟩ := List.mem_iff_getElem?.mp hm
    exact ⟨i, j, c, m, row, hi, hsource, hj, ⟨rows, hrows, hrow⟩, hline⟩

/-- A line that has a row is found. -/
theorem HasRow.exists_locate {i j : Nat} {c : LoadedClass} {m : ClassFile.Method}
    {row : ClassFile.LineEntry} (h : r.HasRow line source i j c m row) :
    ∃ l, r.locate line source = .ok l := by
  cases hl : r.locate line source with
  | ok l => exact ⟨l, rfl⟩
  | error e =>
    obtain ⟨-, hnone⟩ := locate_eq_error_iff.mp hl
    obtain ⟨pc, -, -, hmem⟩ := h.exists_candidate
    rw [hnone h.line_eq_toUInt16.1] at hmem
    cases hmem

/-- Rows of a line at the same place with the same start are the same. -/
theorem HasRow.site_eq {i j : Nat} {c c' : LoadedClass} {m m' : ClassFile.Method}
    {row row' : ClassFile.LineEntry} (h : r.HasRow line source i j c m row)
    (h' : r.HasRow line source i j c' m' row') (hs : row.startPc.toNat = row'.startPc.toNat) :
    site c m row = site c' m' row' := by
  obtain rfl : c = c' := Option.some.inj (h.class_at.symm.trans h'.class_at)
  obtain rfl : m = m' := Option.some.inj (h.method_at.symm.trans h'.method_at)
  have hline : row.line = row'.line := UInt16.toNat_inj.mp (h.line_eq.trans h'.line_eq.symm)
  rw [site, site, hline, UInt16.toNat_inj.mp hs]

theorem HasRow.site_eq_mk {i j : Nat} {c : LoadedClass} {m : ClassFile.Method}
    {row : ClassFile.LineEntry} (h : r.HasRow line source i j c m row) :
    site c m row = ⟨source, line, row.startPc.toUInt32, c.name, m.name, m.descriptor⟩ := by
  have hline : row.line.toUInt32 = line := UInt32.toNat_inj.mp (by simp [h.line_eq])
  rw [site, h.source_eq, hline]

/-- A line is found exactly if it is below 65536 and a class that is registered under the source has
a method with a row of it. What is found is then the location of the row that is least in the order
of its start, the place of its class in the registry and the place of its method in the class.
Otherwise the line and the source are reported. -/
theorem locate_isLeast (r : Registry) (line : UInt32) (source : String) :
    ((∃ l, r.locate line source = .ok l) ↔
      line.toNat ≤ 65535 ∧ ∃ c ∈ r.classes, c.source = source ∧ ∃ m ∈ c.file.methods, ∃ rows,
        m.lines = some rows ∧ ∃ row ∈ rows, row.line.toNat = line.toNat) ∧
    (∀ l, r.locate line source = .ok l ↔ ∃ i j c m row, r.HasRow line source i j c m row ∧
      IsLeast (r.ranks line source) (toLex (row.startPc.toNat, toLex (i, j))) ∧
      l = ⟨source, line, row.startPc.toUInt32, c.name, m.name, m.descriptor⟩) ∧
    ∀ e, r.locate line source = .error e → e = .line line source := by
  have hfound : (∃ l, r.locate line source = .ok l) ↔
      ∃ i j c m row, r.HasRow line source i j c m row := by
    constructor
    · rintro ⟨l, hl⟩
      obtain ⟨i, j, c, m, row, h, -⟩ := exists_isLeast_of_locate hl
      exact ⟨i, j, c, m, row, h⟩
    · rintro ⟨i, j, c, m, row, h⟩
      exact h.exists_locate
  refine ⟨hfound.trans exists_hasRow_iff, fun l => ⟨fun hl => ?_, ?_⟩, fun e he => ?_⟩
  · obtain ⟨i, j, c, m, row, h, rfl, hleast⟩ := exists_isLeast_of_locate hl
    exact ⟨i, j, c, m, row, h, hleast, h.site_eq_mk⟩
  · rintro ⟨i, j, c, m, row, h, hleast, rfl⟩
    obtain ⟨l, hl⟩ := h.exists_locate
    obtain ⟨i', j', c', m', row', h', rfl, hleast'⟩ := exists_isLeast_of_locate hl
    -- There is only one least rank, and a rank belongs to one location.
    have hrank : toLex (row.startPc.toNat, toLex (i, j)) =
        toLex (row'.startPc.toNat, toLex (i', j')) := hleast.unique hleast'
    simp only [toLex_inj, Prod.mk.injEq] at hrank
    obtain ⟨hs, rfl, rfl⟩ := hrank
    rw [hl, ← h.site_eq_mk, h.site_eq h' hs]
  · exact (locate_eq_error_iff.mp he).1

end Registry

end RemoteDebug
