import RemoteDebug.Proofs.FirstRow

/-!
# The row that an instruction belongs to

A row of a line table says where the code of a line starts, and nothing says where it ends. So an
instruction belongs to the row with the greatest start that is not past it, wherever that row stands
in the table, and to the first of these rows if there are several (`ClassFile.IsFloor`). There is at
most one such place (`ClassFile.IsFloor.unique`), and there is one if any row starts in time.

`Registry.lineAt` looks for this row in one table, that of the first method with the name and
descriptor in the first class with the name (`Registry.Leads`), and gives up if that method has no
table, even if a later one has (`Registry.lineAt_isFloor`).

A row that an instruction belongs to is a row of its line. So the line has a first row, which is not
past the instruction (`Registry.locate_of_lineAt`).
-/

namespace RemoteDebug

/-- The element is the first of the list that has the property. -/
def IsFirst {α : Type} (p : α → Prop) (as : List α) (a : α) : Prop :=
  p a ∧ ∃ pre post, as = pre ++ a :: post ∧ ∀ b ∈ pre, ¬p b

theorem find?_eq_some_iff_isFirst {α : Type} {p : α → Bool} {as : List α} {a : α} :
    as.find? p = some a ↔ IsFirst (fun b => p b = true) as a := by
  simp [IsFirst, List.find?_eq_some_iff_append]

namespace ClassFile

/-! ## Tables -/

/-- The row at place `k` is the one that the instruction belongs to : its start is the greatest that
is not past the instruction, and no earlier row has the same. -/
structure IsFloor (rows : List LineEntry) (pc : UInt32) (k : Nat) (row : LineEntry) : Prop where
  row_at : rows[k]? = some row
  start_le : row.startPc.toNat ≤ pc.toNat
  greatest : ∀ other ∈ rows, other.startPc.toNat ≤ pc.toNat →
    other.startPc.toNat ≤ row.startPc.toNat
  first : ∀ j other, rows[j]? = some other → other.startPc = row.startPc → k ≤ j

theorem IsFloor.unique {rows : List LineEntry} {pc : UInt32} {j k : Nat} {row other : LineEntry}
    (h : IsFloor rows pc k row) (h' : IsFloor rows pc j other) : k = j ∧ row = other := by
  have hle := h.greatest other (List.mem_of_getElem? h'.row_at) h'.start_le
  have hge := h'.greatest row (List.mem_of_getElem? h.row_at) h.start_le
  have hstart : other.startPc = row.startPc := UInt16.toNat_inj.mp (Nat.le_antisymm hle hge)
  have hplace : k = j :=
    Nat.le_antisymm (h.first j other h'.row_at hstart) (h'.first k row h.row_at hstart.symm)
  refine ⟨hplace, Option.some.inj ?_⟩
  rw [← h.row_at, ← h'.row_at, hplace]

/-- The row whose start is the greatest in time. -/
def floorRow (rows : List LineEntry) (pc : UInt32) : Option LineEntry :=
  firstBest (fun later earlier => earlier.startPc < later.startPc)
    (rows.filter fun row => row.startPc.toNat ≤ pc.toNat)

theorem exists_isFloor_of_floorRow {rows : List LineEntry} {pc : UInt32} {row : LineEntry}
    (h : floorRow rows pc = some row) : ∃ k, IsFloor rows pc k row := by
  have hmem := List.mem_filter.mp (firstBest_mem h)
  obtain ⟨pre, post, hsplit, hpre⟩ := firstBest_split h
  obtain ⟨before, after, rfl, hbefore⟩ := filter_split hsplit
  have hgreatest : ∀ other ∈ before ++ row :: after, other.startPc.toNat ≤ pc.toNat →
      other.startPc.toNat ≤ row.startPc.toNat := by
    intro other hother htime
    have hworse := firstBest_not_better (by simp [UInt16.lt_iff_toNat_lt]; omega)
      (by simp [UInt16.lt_iff_toNat_lt]; omega) h
      (List.mem_filter.mpr ⟨hother, decide_eq_true htime⟩)
    simpa [UInt16.lt_iff_toNat_lt] using hworse
  refine ⟨before.length, by simp, of_decide_eq_true hmem.2, hgreatest, fun j other hj hsame => ?_⟩
  -- An earlier row in time was passed over for a greater start, so it has another.
  by_contra hlt
  have hother : other ∈ before := mem_of_getElem?_append hj (Nat.not_le.mp hlt)
  have htime : other.startPc.toNat ≤ pc.toNat := hsame ▸ of_decide_eq_true hmem.2
  have hlater := hpre other (hbefore ▸ List.mem_filter.mpr ⟨hother, decide_eq_true htime⟩)
  rw [hsame] at hlater
  exact UInt16.lt_irrefl _ (of_decide_eq_true hlater)

/-- A table with a row in time has a row that the instruction belongs to. -/
theorem exists_floorRow {rows : List LineEntry} {pc : UInt32} {row : LineEntry} (hrow : row ∈ rows)
    (htime : row.startPc.toNat ≤ pc.toNat) : ∃ other, floorRow rows pc = some other := by
  cases hfloor : floorRow rows pc with
  | some other => exact ⟨other, rfl⟩
  | none =>
    have hnone := List.filter_eq_nil_iff.mp (firstBest_eq_none_iff.mp hfloor)
    exact absurd (decide_eq_true htime) (hnone row hrow)

theorem floorRow_eq_some_iff {rows : List LineEntry} {pc : UInt32} {row : LineEntry} :
    floorRow rows pc = some row ↔ ∃ k, IsFloor rows pc k row := by
  refine ⟨exists_isFloor_of_floorRow, ?_⟩
  rintro ⟨k, hk⟩
  obtain ⟨other, hother⟩ := exists_floorRow (List.mem_of_getElem? hk.row_at) hk.start_le
  obtain ⟨j, hj⟩ := exists_isFloor_of_floorRow hother
  rw [hother, (hk.unique hj).2]

theorem Method.lineAt_eq_some_iff {m : Method} {pc : UInt32} {line : UInt16} :
    m.lineAt pc = some line ↔ ∃ rows, m.lines = some rows ∧
      ∃ row, floorRow rows pc = some row ∧ row.line = line := by
  constructor
  · intro h
    obtain ⟨rows, hrows, -⟩ := Option.bind_eq_some_iff.mp h
    rw [lineAt_eq hrows] at h
    exact ⟨rows, hrows, Option.map_eq_some_iff.mp h⟩
  · rintro ⟨rows, hrows, hrow⟩
    rw [lineAt_eq hrows]
    exact Option.map_eq_some_iff.mpr hrow

end ClassFile

namespace Registry

open ClassFile (IsFloor floorRow floorRow_eq_some_iff exists_floorRow)

variable {r : Registry} {pc : UInt32} {className methodName descriptor : String}

/-! ## Registries -/

/-- The names lead to a class and to a method of it. A class with several methods of the same name
and descriptor shows the first. -/
structure Leads (r : Registry) (className methodName descriptor : String) (c : LoadedClass)
    (m : ClassFile.Method) : Prop where
  class_first : IsFirst (fun c => c.name = normalize className) r.classes c
  method_first : IsFirst (fun m => m.name = methodName ∧ m.descriptor = descriptor)
    c.file.methods m

theorem leads_iff {c : LoadedClass} {m : ClassFile.Method} :
    r.Leads className methodName descriptor c m ↔
      r.classes.find? (·.name == normalize className) = some c ∧
        c.file.method? methodName descriptor = some m := by
  unfold ClassFile.method?
  simp only [find?_eq_some_iff_isFirst, beq_iff_eq, Bool.and_eq_true]
  exact ⟨fun h => ⟨h.class_first, h.method_first⟩, fun h => ⟨h.1, h.2⟩⟩

theorem lineAt_eq_ok_iff {l : Location} : r.lineAt pc className methodName descriptor = .ok l ↔
    ∃ c m rows row, r.Leads className methodName descriptor c m ∧ m.lines = some rows ∧
      floorRow rows pc = some row ∧
      l = ⟨c.source, row.line.toUInt32, pc, normalize className, methodName, descriptor⟩ := by
  constructor
  · intro h
    unfold lineAt at h
    dsimp only at h
    split at h
    · next l' hfound =>
      cases h
      obtain ⟨c, hc, hfound⟩ := Option.bind_eq_some_iff.mp hfound
      obtain ⟨m, hm, hfound⟩ := Option.bind_eq_some_iff.mp hfound
      obtain ⟨line, hline, hfound⟩ := Option.bind_eq_some_iff.mp hfound
      obtain ⟨rows, hrows, row, hrow, rfl⟩ := ClassFile.Method.lineAt_eq_some_iff.mp hline
      have hleads : r.Leads className methodName descriptor c m := leads_iff.mpr ⟨hc, hm⟩
      refine ⟨c, m, rows, row, hleads, hrows, hrow, ?_⟩
      rw [← hleads.class_first.1]
      exact (Option.some.inj hfound).symm
    · cases h
  · rintro ⟨c, m, rows, row, hleads, hrows, hrow, rfl⟩
    obtain ⟨hc, hm⟩ := leads_iff.mp hleads
    rw [lineAt_eq_ok hc hm (ClassFile.Method.lineAt_eq_some_iff.mpr ⟨rows, hrows, row, hrow, rfl⟩),
      hleads.class_first.1]

theorem eq_of_lineAt_error {e : Unresolved}
    (h : r.lineAt pc className methodName descriptor = .error e) :
    e = .pc pc (normalize className) methodName descriptor := by
  unfold lineAt at h
  dsimp only at h
  split at h
  · cases h
  · exact (Except.error.inj h).symm

/-- An instruction has a line exactly if a class of the name is registered and its first method with
the name and descriptor has a table with a row that starts no later. The line is then that of the
row with the greatest start that is not past the instruction, the first of these in the table,
whatever order the table is in, and all else is as it was asked for, with the class name in the form
in which classes are registered. Otherwise what was asked for is reported, in the same form. -/
theorem lineAt_isFloor (r : Registry) (pc : UInt32) (className methodName descriptor : String) :
    ((∃ l, r.lineAt pc className methodName descriptor = .ok l) ↔
      ∃ c m rows, r.Leads className methodName descriptor c m ∧ m.lines = some rows ∧
        ∃ row ∈ rows, row.startPc.toNat ≤ pc.toNat) ∧
    (∀ l, r.lineAt pc className methodName descriptor = .ok l ↔
      ∃ c m rows k row, r.Leads className methodName descriptor c m ∧ m.lines = some rows ∧
        IsFloor rows pc k row ∧
        l = ⟨c.source, row.line.toUInt32, pc, normalize className, methodName, descriptor⟩) ∧
    ∀ e, r.lineAt pc className methodName descriptor = .error e →
      e = .pc pc (normalize className) methodName descriptor := by
  refine ⟨?_, fun l => ?_, fun e => eq_of_lineAt_error⟩
  · constructor
    · rintro ⟨l, hl⟩
      obtain ⟨c, m, rows, row, hleads, hrows, hrow, -⟩ := lineAt_eq_ok_iff.mp hl
      obtain ⟨k, hk⟩ := floorRow_eq_some_iff.mp hrow
      exact ⟨c, m, rows, hleads, hrows, row, List.mem_of_getElem? hk.row_at, hk.start_le⟩
    · rintro ⟨c, m, rows, hleads, hrows, row, hrow, htime⟩
      obtain ⟨other, hother⟩ := exists_floorRow hrow htime
      exact ⟨_, lineAt_eq_ok_iff.mpr ⟨c, m, rows, other, hleads, hrows, hother, rfl⟩⟩
  · rw [lineAt_eq_ok_iff]
    constructor
    · rintro ⟨c, m, rows, row, hleads, hrows, hrow, rfl⟩
      obtain ⟨k, hk⟩ := floorRow_eq_some_iff.mp hrow
      exact ⟨c, m, rows, k, row, hleads, hrows, hk, rfl⟩
    · rintro ⟨c, m, rows, k, row, hleads, hrows, hk, rfl⟩
      exact ⟨c, m, rows, row, hleads, hrows, floorRow_eq_some_iff.mpr ⟨k, hk⟩, rfl⟩

/-! ## Breakpoints where the device stops -/

/-- The row that an instruction belongs to is a row of its line. -/
theorem exists_hasRow_of_lineAt {l : Location}
    (h : r.lineAt pc className methodName descriptor = .ok l) :
    ∃ i j c m row, r.HasRow l.line l.source i j c m row ∧ row.startPc.toNat ≤ pc.toNat := by
  obtain ⟨c, m, rows, row, hleads, hrows, hrow, rfl⟩ := lineAt_eq_ok_iff.mp h
  obtain ⟨k, hk⟩ := floorRow_eq_some_iff.mp hrow
  obtain ⟨-, cs₁, cs₂, hclasses, -⟩ := hleads.class_first
  obtain ⟨-, ms₁, ms₂, hmethods, -⟩ := hleads.method_first
  refine ⟨cs₁.length, ms₁.length, c, m, row, ?_, hk.start_le⟩
  exact
    { class_at := by simp [hclasses]
      source_eq := rfl
      method_at := by simp [hmethods]
      row_mem := ⟨rows, hrows, List.mem_of_getElem? hk.row_at⟩
      line_eq := by simp }

/-- A line that has a row is found no later than the row starts. -/
theorem HasRow.exists_locate_le {line : UInt32} {source : String} {i j : Nat} {c : LoadedClass}
    {m : ClassFile.Method} {row : ClassFile.LineEntry} (h : r.HasRow line source i j c m row) :
    ∃ b, r.locate line source = .ok b ∧ b.line = line ∧ b.source = source ∧
      b.pc.toNat ≤ row.startPc.toNat := by
  obtain ⟨b, hb⟩ := h.exists_locate
  obtain ⟨i', j', c', m', row', h', rfl, hleast⟩ := exists_isLeast_of_locate hb
  have hrank : toLex (row'.startPc.toNat, toLex (i', j')) ≤
      toLex (row.startPc.toNat, toLex (i, j)) := hleast.2 ⟨i, j, c, m, row, h, rfl⟩
  rw [Prod.Lex.toLex_le_toLex] at hrank
  refine ⟨_, hb, ?_, h'.source_eq, ?_⟩
  · rw [h'.site_eq_mk]
  · have hpc : (site c' m' row').pc.toNat = row'.startPc.toNat := by simp [site]
    omega

/-- Whatever classes are registered, and whatever their methods and tables are like : where an
instruction has a line, a breakpoint can be set on that line, and it is on the same line of the same
source, at an instruction that is not past the given one. -/
theorem locate_of_lineAt {l : Location} (h : r.lineAt pc className methodName descriptor = .ok l) :
    ∃ b, r.locate l.line l.source = .ok b ∧ b.line = l.line ∧ b.source = l.source ∧ b.pc ≤ pc := by
  obtain ⟨i, j, c, m, row, hrow, htime⟩ := exists_hasRow_of_lineAt h
  obtain ⟨b, hb, hline, hsource, hle⟩ := hrow.exists_locate_le
  exact ⟨b, hb, hline, hsource, UInt32.le_iff_toNat_le.mpr (Nat.le_trans hle htime)⟩

/-- A class whose method `run` is there twice. The table of the first is in no order, has a start
twice and a line twice. -/
def doubled : ClassFile :=
  { scattered with
    methods := [⟨0, "run", "()V", some ⟨0, 0, [], some [⟨8, 7⟩, ⟨2, 5⟩, ⟨4, 7⟩, ⟨8, 5⟩]⟩⟩,
      ⟨0, "run", "()V", some ⟨0, 0, [], some [⟨0, 5⟩]⟩⟩,
      ⟨0, "stop", "()V", some ⟨0, 0, [], some [⟨1, 7⟩]⟩⟩] }

/-- Two rows start at instruction 8, and the first of them says that instruction 9 is on line 7. A
breakpoint on that line goes to another method. -/
theorem locate_of_lineAt_doubled :
    let r := (Registry.empty none).put ⟨"demo/Blink$Led", "demo/Blink.java", doubled⟩
    let l : Location := ⟨"demo/Blink.java", 7, 9, "demo/Blink$Led", "run", "()V"⟩
    r.Registered ∧ r.lineAt 9 "demo.Blink$Led" "run" "()V" = .ok l ∧
      r.locate 7 "demo/Blink.java" = .ok ⟨"demo/Blink.java", 7, 1, "demo/Blink$Led", "stop", "()V"⟩ ∧
      ∃ b, r.locate l.line l.source = .ok b ∧ b.line = l.line ∧ b.source = l.source ∧ b.pc ≤ 9 := by
  intro r l
  have hadd : (Registry.empty none).add doubled none = .ok r := by decide +kernel
  have hl : r.lineAt 9 "demo.Blink$Led" "run" "()V" = .ok l := by decide +kernel
  exact ⟨.add (.empty none) hadd, hl, by decide +kernel, locate_of_lineAt hl⟩

end Registry

end RemoteDebug
