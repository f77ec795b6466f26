import Mathlib.Data.List.Nodup
import RemoteDebug.Registry.Resolve

/-!
# From a line to its instruction and back

`Registry.locate` searches all methods of all classes of a source for the smallest instruction of a
line. `Registry.lineAt` finds one class and one method by name, and in its table the row that an
instruction belongs to. Nothing in either of them refers to the other.

They agree for three reasons. Classes have names of their own, in the form in which they are looked
up (`Registry.WellNamed`), which every registration keeps. A method that no other hides is found by
its name and descriptor. And the instruction that `locate` gives is where a row of the line starts
(`Method.mem_lines_of_firstPc`), so that no row lies between, and `lineAt` finds that row if it is
the only one to start there (`Method.lineAt_of_mem`).
-/

namespace RemoteDebug

/-- What has a key of its own is found by it. -/
theorem find?_eq_some_of_nodup {α κ : Type} {key : α → κ} {as : List α} {a : α} {p : α → Bool}
    (hkeys : (as.map key).Nodup) (ha : a ∈ as) (hp : ∀ b, p b = true ↔ key b = key a) :
    as.find? p = some a := by
  have hfound : (as.find? p).isSome = true := List.find?_isSome.mpr ⟨a, ha, (hp a).mpr rfl⟩
  obtain ⟨b, hb⟩ := Option.isSome_iff_exists.mp hfound
  have hkey : key b = key a := (hp b).mp (List.find?_some hb)
  rw [hb, List.inj_on_of_nodup_map hkeys (List.mem_of_find?_eq_some hb) ha hkey]

namespace ClassFile

/-! ## Rows of a method -/

namespace Method

/-- The first instruction of a line is where a row of the line starts. -/
theorem mem_lines_of_firstPc {m : Method} {line pc : UInt16} (h : m.firstPc line = some pc) :
    ∃ rows, m.lines = some rows ∧ ⟨pc, line⟩ ∈ rows := by
  obtain ⟨rows, hrows, hmin⟩ := Option.bind_eq_some_iff.mp h
  obtain ⟨row, hrow, rfl⟩ := List.mem_map.mp (List.min?_mem hmin)
  obtain ⟨hmem, hline⟩ := List.mem_filter.mp hrow
  refine ⟨rows, hrows, ?_⟩
  rwa [← eq_of_beq hline]

theorem lineAt_eq {m : Method} {rows : List LineEntry} (hm : m.lines = some rows) (pc : UInt32) :
    m.lineAt pc = (firstBest (fun later earlier => earlier.startPc < later.startPc)
      (rows.filter fun row => row.startPc.toNat ≤ pc.toNat)).map (·.line) := by
  rw [lineAt, hm, Option.map_eq_bind]
  rfl

/-- A row that starts at an instruction, and is the only one to do so, gives its line. -/
theorem lineAt_of_mem {m : Method} {rows : List LineEntry} {row : LineEntry}
    (hm : m.lines = some rows) (hrow : row ∈ rows) (hstarts : (rows.map (·.startPc)).Nodup) :
    m.lineAt row.startPc.toUInt32 = some row.line := by
  rw [lineAt_eq hm, Option.map_eq_some_iff]
  have hbefore : row ∈ rows.filter fun r => r.startPc.toNat ≤ row.startPc.toUInt32.toNat :=
    List.mem_filter.mpr ⟨hrow, by simp⟩
  cases hbest : firstBest (fun later earlier => earlier.startPc < later.startPc)
      (rows.filter fun r => r.startPc.toNat ≤ row.startPc.toUInt32.toNat) with
  | none =>
    rw [firstBest_eq_none_iff.mp hbest] at hbefore
    cases hbefore
  | some best =>
    obtain ⟨hmem, hle⟩ := List.mem_filter.mp (firstBest_mem hbest)
    have hle : best.startPc.toNat ≤ row.startPc.toNat := of_decide_eq_true hle
    -- A later start would have been better, so the best row starts where `row` does.
    have hge : row.startPc.toNat ≤ best.startPc.toNat := by
      have hworse := firstBest_not_better (by simp [UInt16.lt_iff_toNat_lt]; omega)
        (by simp [UInt16.lt_iff_toNat_lt]; omega) hbest hbefore
      simpa [UInt16.lt_iff_toNat_lt] using hworse
    have hsame : best.startPc = row.startPc := UInt16.toNat_inj.mp (Nat.le_antisymm hle hge)
    have heq : best = row := List.inj_on_of_nodup_map hstarts hmem hrow hsame
    exact ⟨best, rfl, by rw [heq]⟩

end Method

/-- A method that no other hides is found by its name and descriptor. -/
theorem method?_of_mem {file : ClassFile} {m : Method}
    (hmethods : (file.methods.map fun m => (m.name, m.descriptor)).Nodup) (hm : m ∈ file.methods) :
    file.method? m.name m.descriptor = some m :=
  find?_eq_some_of_nodup hmethods hm (by simp)

end ClassFile

namespace Registry

/-! ## Names -/

@[simp]
theorem normalize_normalize (name : String) : normalize (normalize name) = normalize name := by
  unfold normalize
  rw [← String.toList_inj]
  simp only [String.toList_map, List.map_map]
  refine List.map_congr_left fun c _ => ?_
  by_cases hc : c = '\\' ∨ c = '.' <;> simp [hc]

/-- Classes have names of their own, in the form in which they are looked up. -/
structure WellNamed (r : Registry) : Prop where
  nodup : (r.classes.map (·.name)).Nodup
  normal : ∀ c ∈ r.classes, normalize c.name = c.name

theorem WellNamed.put {r : Registry} {c : LoadedClass} (h : r.WellNamed)
    (hc : normalize c.name = c.name) : (r.put c).WellNamed := by
  constructor
  · have hothers : ((r.classes.filter (·.name ≠ c.name)).map (·.name)).Nodup :=
      h.nodup.sublist (List.filter_sublist.map _)
    simp only [Registry.put, List.map_append, List.map_singleton]
    refine List.nodup_append.mpr ⟨hothers, List.nodup_singleton _, ?_⟩
    intro name hname other hother
    obtain ⟨d, hd, rfl⟩ := List.mem_map.mp hname
    rw [List.mem_singleton.mp hother]
    simpa using (List.mem_filter.mp hd).2
  · intro d hd
    rcases List.mem_append.mp hd with hd | hd
    · exact h.normal d (List.mem_filter.mp hd).1
    · rw [List.mem_singleton.mp hd, hc]

theorem WellNamed.add {r r' : Registry} {file : ClassFile} {source : Option String}
    (h : r.WellNamed) (hr : r.add file source = .ok r') : r'.WellNamed := by
  unfold Registry.add entry at hr
  cases hname : file.thisName with
  | error e =>
    rw [hname] at hr
    cases hr
  | ok name =>
    rw [hname] at hr
    cases hr
    exact h.put (normalize_normalize name)

theorem WellNamed.addBytes {r r' : Registry} {bs : Bytes} (h : r.WellNamed)
    (hr : r.addBytes bs = .ok r') : r'.WellNamed := by
  unfold Registry.addBytes at hr
  cases hfile : ClassFile.parse bs with
  | error e =>
    rw [hfile] at hr
    cases hr
  | ok file =>
    rw [hfile] at hr
    exact h.add hr

theorem WellNamed.addFile {r r' : Registry} {files : Files} {path : String} (h : r.WellNamed)
    (hr : r.addFile files path = .ok r') : r'.WellNamed := by
  unfold Registry.addFile at hr
  split at hr
  · exact h.addBytes hr
  · cases hr

theorem WellNamed.addAll {r : Registry} (h : r.WellNamed) (files : List (String × Bytes)) :
    (r.addAll files).1.WellNamed := by
  fun_induction Registry.addAll r files with
  | case1 r => exact h
  | case2 r path bs files hclass r' hr r'' n hrest ih =>
    have hrest' := ih (h.addBytes hr)
    rwa [hrest] at hrest'
  | case3 r path bs files hclass e hr ih => exact ih h
  | case4 r path bs files hclass ih => exact ih h

/-- The registries that classes were registered in, one after the other. -/
inductive Registered : Registry → Prop where
  | empty (root : Option String) : Registered (.empty root)
  | add {r r' : Registry} {file : ClassFile} {source : Option String} (hr : Registered r)
      (h : r.add file source = .ok r') : Registered r'
  | addFile {r r' : Registry} {files : Files} {path : String} (hr : Registered r)
      (h : r.addFile files path = .ok r') : Registered r'
  | addFolder {r : Registry} (hr : Registered r) (files : Files) (path : String) :
      Registered (r.addFolder files path).1

theorem Registered.wellNamed {r : Registry} (h : r.Registered) : r.WellNamed := by
  induction h with
  | empty root => exact ⟨List.nodup_nil, nofun⟩
  | add _ hr ih => exact ih.add hr
  | addFile _ hr ih => exact ih.addFile hr
  | addFolder _ files path ih => exact ih.addAll _

/-- A class is found by its name. -/
theorem WellNamed.find?_of_mem {r : Registry} {c : LoadedClass} (h : r.WellNamed)
    (hc : c ∈ r.classes) : r.classes.find? (·.name == normalize c.name) = some c := by
  rw [h.normal c hc]
  exact find?_eq_some_of_nodup h.nodup hc (by simp)

/-! ## There and back -/

theorem mem_candidates {r : Registry} {line : UInt16} {source : String} {l : Location}
    (h : l ∈ r.candidates line source) : ∃ c ∈ r.classes, ∃ m ∈ c.file.methods, ∃ pc,
      c.source = source ∧ m.firstPc line = some pc ∧
        l = ⟨c.source, line.toUInt32, pc.toUInt32, c.name, m.name, m.descriptor⟩ := by
  obtain ⟨c, hc, hl⟩ := List.mem_flatMap.mp h
  obtain ⟨hc, hsource⟩ := List.mem_filter.mp hc
  obtain ⟨m, hm, hl⟩ := List.mem_filterMap.mp hl
  obtain ⟨pc, hpc, hl⟩ := Option.bind_eq_some_iff.mp hl
  exact ⟨c, hc, m, hm, pc, eq_of_beq hsource, hpc, (Option.some.inj hl).symm⟩

theorem mem_candidates_of_locate {r : Registry} {line : UInt32} {source : String} {l : Location}
    (h : r.locate line source = .ok l) :
    l ∈ r.candidates line.toUInt16 source := by
  unfold locate at h
  split at h
  · split at h
    · next hbest =>
      cases h
      exact firstBest_mem hbest
    · cases h
  · cases h

theorem lineAt_eq_ok {r : Registry} {c : LoadedClass} {m : ClassFile.Method} {pc : UInt32}
    {line : UInt16} {className methodName descriptor : String}
    (hc : r.classes.find? (·.name == normalize className) = some c)
    (hm : c.file.method? methodName descriptor = some m) (hl : m.lineAt pc = some line) :
    r.lineAt pc className methodName descriptor =
      .ok ⟨c.source, line.toUInt32, pc, c.name, methodName, descriptor⟩ := by
  simp [lineAt, hc, hm, hl]

/-- Whatever classes were registered, and in whatever order the rows of their tables are : the
instruction that carries a source line belongs to that line again, in the same class, method and
source, if no two methods of the class have the same name and descriptor and no two rows of the
method start at the same instruction. -/
theorem lineAt_locate {r : Registry} (hr : r.Registered) {line : UInt32} {source : String}
    {l : Location} (hl : r.locate line source = .ok l)
    (hmethods : ∀ c ∈ r.classes, c.name = l.className →
      (c.file.methods.map fun m => (m.name, m.descriptor)).Nodup)
    (hrows : ∀ c ∈ r.classes, c.name = l.className →
      ∀ m, c.file.method? l.methodName l.descriptor = some m →
        ∀ rows, m.lines = some rows → (rows.map (·.startPc)).Nodup) :
    r.lineAt l.pc l.className l.methodName l.descriptor = .ok l := by
  obtain ⟨c, hc, m, hm, pc, -, hpc, rfl⟩ := mem_candidates (mem_candidates_of_locate hl)
  have hmethod := ClassFile.method?_of_mem (hmethods c hc rfl) hm
  obtain ⟨rows, hlines, hrow⟩ := ClassFile.Method.mem_lines_of_firstPc hpc
  have hline := ClassFile.Method.lineAt_of_mem hlines hrow (hrows c hc rfl m hmethod rows hlines)
  exact lineAt_eq_ok (hr.wellNamed.find?_of_mem hc) hmethod hline

/-- A class file with one method, whose table is in no order and has a line twice. -/
def scattered : ClassFile where
  minorVersion := 0
  majorVersion := 0
  pool := ⟨#[.utf8 "demo.Blink$Led", .classRef 1]⟩
  flags := 0
  thisClass := 2
  superClass := 0
  interfaceCount := 0
  methods := [⟨0, "run", "()V", some ⟨0, 0, [], some [⟨8, 7⟩, ⟨0, 5⟩, ⟨4, 7⟩]⟩⟩]

/-- Line 7 is found at instruction 4, before the row that stands first, and leads back. -/
theorem lineAt_locate_scattered :
    let r := (Registry.empty none).put ⟨"demo/Blink$Led", "demo/Blink.java", scattered⟩
    let l : Location := ⟨"demo/Blink.java", 7, 4, "demo/Blink$Led", "run", "()V"⟩
    r.Registered ∧ r.locate 7 "demo/Blink.java" = .ok l ∧
      r.lineAt 4 "demo/Blink$Led" "run" "()V" = .ok l := by
  intro r l
  have hadd : (Registry.empty none).add scattered none = .ok r := by decide +kernel
  have hr : r.Registered := .add (.empty none) hadd
  have hl : r.locate 7 "demo/Blink.java" = .ok l := by decide +kernel
  refine ⟨hr, hl, lineAt_locate hr hl ?_ ?_⟩
  · decide +kernel
  · decide +kernel

end Registry

end RemoteDebug
