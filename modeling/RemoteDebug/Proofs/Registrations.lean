import Mathlib.Data.List.Induction
import RemoteDebug.Proofs.Lines

/-!
# Registries over whole histories

A registry comes about one `Registration` at a time. Classes are at hand or in files, under a source
that is given or one that follows from the name, and any of the attempts may fail. `Registry.after`
carries them out one after the other.

What comes of it can be said without the steps in between. Whether a registration succeeds, and with
which entry, does not depend on the classes that are there already (`Registry.register_eq`). So the
entries of a history are a list of their own (`registered`), and the registry holds those that no
later one of the same name follows (`current`), in their order. A lookup therefore goes through the
last definition of a class and through no other (`Registry.classes_after`).
-/

namespace RemoteDebug

/-! ## Registrations -/

/-- An attempt to register a class. -/
inductive Registration where
  /-- A class at hand, under a source or under the one that follows from its name. -/
  | given (file : ClassFile) (source : Option String)
  /-- The class in a file. -/
  | stored (files : Files) (path : String)

namespace Registration

/-- The class that is registered. -/
def file : Registration → Except ClassFile.Error ClassFile
  | .given file _ => .ok file
  | .stored files path =>
    match files.read path with
    | .ok bs => ClassFile.parse bs
    | .error fault => .error (.io fault)

/-- The source that it is registered under, if it is given. -/
def source? : Registration → Option String
  | .given _ source => source
  | .stored _ _ => none

/-- The entry of a registration, below a directory of sources. -/
def entry (root : Option String) (x : Registration) : Except ClassFile.Error LoadedClass := do
  (Registry.empty root).entry (← x.file) x.source?

end Registration

/-- The entries of those registrations that succeed, in order. -/
def registered (root : Option String) (xs : List Registration) : List LoadedClass :=
  xs.filterMap fun x => (x.entry root).toOption

theorem registered_snoc (root : Option String) (xs : List Registration) (x : Registration) :
    registered root (xs ++ [x]) = registered root xs ++ (x.entry root).toOption.toList := by
  unfold registered
  rw [List.filterMap_append, List.filterMap_cons, List.filterMap_nil]
  cases x.entry root <;> rfl

/-- The entries that no later one of the same name follows. -/
def current : List LoadedClass → List LoadedClass
  | [] => []
  | c :: cs => if c.name ∈ cs.map (·.name) then current cs else c :: current cs

/-- A later entry takes the place of those of its name, and stands at the end. -/
theorem current_snoc (cs : List LoadedClass) (c : LoadedClass) :
    current (cs ++ [c]) = (current cs).filter (·.name ≠ c.name) ++ [c] := by
  induction cs with
  | nil => rfl
  | cons d cs ih =>
    simp only [List.cons_append, current, List.map_append, List.map_singleton, List.mem_append,
      List.mem_singleton, ih]
    by_cases hd : d.name ∈ cs.map (·.name)
    · rw [if_pos (Or.inl hd), if_pos hd]
    · rw [if_neg hd]
      by_cases hc : d.name = c.name
      · rw [if_pos (Or.inr hc), List.filter_cons_of_neg (by simp [hc])]
      · have hnew : ¬(d.name ∈ cs.map (·.name) ∨ d.name = c.name) := not_or.mpr ⟨hd, hc⟩
        rw [if_neg hnew, List.filter_cons_of_pos (by simp [hc]), List.cons_append]

theorem mem_current_iff {cs : List LoadedClass} {c : LoadedClass} :
    c ∈ current cs ↔ ∃ pre post, cs = pre ++ c :: post ∧ c.name ∉ post.map (·.name) := by
  induction cs with
  | nil => simp [current]
  | cons d cs ih =>
    have hlater : (∃ pre post, d :: cs = pre ++ c :: post ∧ c.name ∉ post.map (·.name)) ↔
        (d = c ∧ c.name ∉ cs.map (·.name)) ∨ c ∈ current cs := by
      rw [ih]
      constructor
      · rintro ⟨pre, post, he, hpost⟩
        cases pre with
        | nil =>
          obtain ⟨rfl, rfl⟩ := List.cons.inj he
          exact Or.inl ⟨rfl, hpost⟩
        | cons b pre => exact Or.inr ⟨pre, post, (List.cons.inj he).2, hpost⟩
      · rintro (⟨rfl, hcs⟩ | ⟨pre, post, rfl, hpost⟩)
        · exact ⟨[], cs, rfl, hcs⟩
        · exact ⟨d :: pre, post, rfl, hpost⟩
    rw [hlater, current]
    split
    · next hd =>
      refine ⟨Or.inr, ?_⟩
      rintro (⟨rfl, hcs⟩ | hc)
      · exact absurd hd hcs
      · exact hc
    · next hd =>
      rw [List.mem_cons]
      constructor
      · rintro (rfl | hc)
        · exact Or.inl ⟨rfl, hd⟩
        · exact Or.inr hc
      · rintro (⟨rfl, -⟩ | hc)
        · exact Or.inl rfl
        · exact Or.inr hc

namespace Registry

/-- Make a registration. -/
def register (r : Registry) : Registration → Except ClassFile.Error Registry
  | .given file source => r.add file source
  | .stored files path => r.addFile files path

/-- The registry after some registrations, where one that fails changes nothing. -/
def after (r : Registry) (xs : List Registration) : Registry :=
  xs.foldl (fun r x => (r.register x).toOption.getD r) r

/-- The entry of a registration does not depend on the classes that are there already. -/
theorem register_eq (r : Registry) (x : Registration) :
    r.register x = (x.entry r.root).map r.put := by
  have hadd (file : ClassFile) (source : Option String) :
      r.add file source = ((Registry.empty r.root).entry file source).map r.put := by
    unfold add entry
    cases file.thisName <;> rfl
  cases x with
  | given file source => exact hadd file source
  | stored files path =>
    simp only [register, addFile, Registration.entry, Registration.file]
    cases files.read path with
    | error fault => rfl
    | ok bs =>
      simp only [addBytes]
      cases ClassFile.parse bs with
      | error e => rfl
      | ok file => exact hadd file none

/-! ## Histories -/

theorem after_snoc (r : Registry) (xs : List Registration) (x : Registration) :
    r.after (xs ++ [x]) = ((r.after xs).register x).toOption.getD (r.after xs) := by
  simp [after, List.foldl_append]

/-- What comes of a history : the entries that were registered, less those that were replaced. -/
theorem after_empty (root : Option String) (xs : List Registration) :
    (empty root).after xs = ⟨root, current (registered root xs)⟩ := by
  induction xs using List.reverseRecOn with
  | nil => rfl
  | append_singleton xs x ih =>
    rw [after_snoc, ih, register_eq, registered_snoc]
    cases x.entry root with
    | error e => simp [Except.map, Except.toOption]
    | ok c => simp [Except.map, Except.toOption, put, current_snoc]

theorem Registered.after {r : Registry} (h : r.Registered) (xs : List Registration) :
    (r.after xs).Registered := by
  induction xs using List.reverseRecOn with
  | nil => exact h
  | append_singleton xs x ih =>
    rw [after_snoc]
    cases hx : (r.after xs).register x with
    | error e => exact ih
    | ok r' =>
      cases x with
      | given file source => exact .add ih hx
      | stored files path => exact .addFile ih hx

/-- The names that are in the form in which they are looked up. -/
theorem normalize_eq_self_iff {name : String} :
    normalize name = name ↔ '\\' ∉ name.toList ∧ '.' ∉ name.toList := by
  have hchar (c : Char) :
      (if c = '\\' ∨ c = '.' then '/' else c) = c ↔ c ≠ '\\' ∧ c ≠ '.' := by
    by_cases h₁ : c = '\\'
    · simp [h₁]
    · by_cases h₂ : c = '.'
      · simp [h₂]
      · simp [h₁, h₂]
  have hmap : normalize name = name ↔ ∀ c ∈ name.toList, c ≠ '\\' ∧ c ≠ '.' := by
    rw [← String.toList_inj, normalize, String.toList_map]
    nth_rewrite 2 [← List.map_id name.toList]
    rw [List.map_eq_map_iff]
    exact forall₂_congr fun c _ => hchar c
  rw [hmap]
  constructor
  · exact fun h => ⟨fun hc => (h _ hc).1 rfl, fun hc => (h _ hc).2 rfl⟩
  · rintro ⟨h₁, h₂⟩ c hc
    exact ⟨fun he => h₁ (he ▸ hc), fun he => h₂ (he ▸ hc)⟩

/-! ## Lookups -/

end Registry

/-- The line of an instruction is that of a row that starts no later. -/
theorem ClassFile.Method.exists_row_of_lineAt {m : Method} {pc : UInt32} {line : UInt16}
    (h : m.lineAt pc = some line) : ∃ rows, m.lines = some rows ∧
      ∃ row ∈ rows, row.line = line ∧ row.startPc.toNat ≤ pc.toNat := by
  obtain ⟨rows, hrows, -⟩ := Option.bind_eq_some_iff.mp h
  rw [lineAt_eq hrows] at h
  obtain ⟨row, hbest, hline⟩ := Option.map_eq_some_iff.mp h
  obtain ⟨hrow, hstart⟩ := List.mem_filter.mp (firstBest_mem hbest)
  exact ⟨rows, hrows, row, hrow, hline, of_decide_eq_true hstart⟩

/-- The location is read off the class : in a method of its name and descriptor, a row for its line
starts no later than its instruction. -/
def LoadedClass.Shows (c : LoadedClass) (l : Location) : Prop :=
  l.className = c.name ∧ l.source = c.source ∧
    ∃ m ∈ c.file.methods, m.name = l.methodName ∧ m.descriptor = l.descriptor ∧
      ∃ rows, m.lines = some rows ∧
        ∃ row ∈ rows, row.line.toUInt32 = l.line ∧ row.startPc.toNat ≤ l.pc.toNat

namespace Registry

theorem exists_shows_of_locate {r : Registry} {line : UInt32} {source : String} {l : Location}
    (h : r.locate line source = .ok l) : ∃ c ∈ r.classes, c.Shows l := by
  obtain ⟨c, hc, m, hm, pc, -, hpc, rfl⟩ := mem_candidates (mem_candidates_of_locate h)
  obtain ⟨rows, hrows, hrow⟩ := ClassFile.Method.mem_lines_of_firstPc hpc
  exact ⟨c, hc, rfl, rfl, m, hm, rfl, rfl, rows, hrows, _, hrow, rfl, by simp⟩

theorem exists_shows_of_lineAt {r : Registry} {pc : UInt32}
    {className methodName descriptor : String} {l : Location}
    (h : r.lineAt pc className methodName descriptor = .ok l) : ∃ c ∈ r.classes, c.Shows l := by
  unfold lineAt at h
  dsimp only at h
  split at h
  · next l' hfound =>
    cases h
    obtain ⟨c, hc, hfound⟩ := Option.bind_eq_some_iff.mp hfound
    obtain ⟨m, hm, hfound⟩ := Option.bind_eq_some_iff.mp hfound
    obtain ⟨line, hline, hfound⟩ := Option.bind_eq_some_iff.mp hfound
    cases hfound
    obtain ⟨rows, hrows, row, hrow, rfl, hstart⟩ := ClassFile.Method.exists_row_of_lineAt hline
    have hname : m.name = methodName ∧ m.descriptor = descriptor := by
      simpa using List.find?_some hm
    exact ⟨c, List.mem_of_find?_eq_some hc, rfl, rfl, m, List.mem_of_find?_eq_some hm, hname.1,
      hname.2, rows, hrows, row, hrow, rfl, hstart⟩
  · cases h

/-- The registry answers a question about lines or instructions with the location. -/
def Answers (r : Registry) (l : Location) : Prop :=
  (∃ line source, r.locate line source = .ok l) ∨
    ∃ pc className methodName descriptor, r.lineAt pc className methodName descriptor = .ok l

theorem Answers.exists_shows {r : Registry} {l : Location} (h : r.Answers l) :
    ∃ c ∈ r.classes, c.Shows l := by
  rcases h with ⟨line, source, h⟩ | ⟨pc, className, methodName, descriptor, h⟩
  · exact exists_shows_of_locate h
  · exact exists_shows_of_lineAt h

/-- Whatever is registered, in whatever way and with whatever failures on the way, from an empty
registry on :

* the registry holds the entries that were registered, in order, less those that a later one of the
  same name follows;
* no two of its classes have the same name, and no name has a backslash or a dot;
* a further registration that fails changes nothing, and one that succeeds puts its entry at the
  end, with its own source, and takes away the one of the same name;
* every answer of the registry is read off the last entry of its class name. -/
theorem classes_after (root : Option String) (xs : List Registration) :
    let r := (empty root).after xs
    r.classes = current (registered root xs) ∧
      (r.classes.map (·.name)).Nodup ∧
      (∀ c ∈ r.classes, '\\' ∉ c.name.toList ∧ '.' ∉ c.name.toList) ∧
      (∀ x e, r.register x = .error e → (empty root).after (xs ++ [x]) = r) ∧
      (∀ x r', r.register x = .ok r' → ∃ c, x.entry root = .ok c ∧
        (empty root).after (xs ++ [x]) = r' ∧
        r'.classes = r.classes.filter (·.name ≠ c.name) ++ [c]) ∧
      ∀ l, r.Answers l → ∃ pre c post, registered root xs = pre ++ c :: post ∧
        c.name ∉ post.map (·.name) ∧ c.Shows l := by
  intro r
  have hr : r = ⟨root, current (registered root xs)⟩ := after_empty root xs
  have hnamed : r.WellNamed := ((Registered.empty root).after xs).wellNamed
  refine ⟨by rw [hr], hnamed.nodup, fun c hc => normalize_eq_self_iff.mp (hnamed.normal c hc),
    fun x e hx => ?_, fun x r' hx => ?_, fun l hl => ?_⟩
  · rw [after_snoc, hx]
    rfl
  · have hregister : r.register x = (x.entry root).map r.put := by rw [register_eq, hr]
    cases hentry : x.entry root with
    | error e =>
      rw [hregister, hentry] at hx
      cases hx
    | ok c =>
      rw [after_snoc, hx]
      rw [hregister, hentry] at hx
      cases hx
      exact ⟨c, rfl, rfl, rfl⟩
  · obtain ⟨c, hc, hshows⟩ := hl.exists_shows
    rw [hr, mem_current_iff] at hc
    obtain ⟨pre, post, he, hpost⟩ := hc
    exact ⟨pre, c, post, he, hpost, hshows⟩

/-- The class of `scattered` under another spelling of its name, and with other lines. -/
def scatteredAnew : ClassFile :=
  { scattered with
    pool := ⟨#[.utf8 "demo\\Blink$Led", .classRef 1]⟩
    methods := [⟨0, "run", "()V", some ⟨0, 0, [], some [⟨0, 9⟩]⟩⟩] }

/-- A class is registered under a source of its own, a file is missing, and the class is registered
again under the source that follows from its name. What the registry answers is read off the new
definition, and nothing is found in the old source. -/
theorem classes_after_reload :
    let missing := Registration.stored Files.empty "Led.class"
    let again := Registration.given scatteredAnew none
    let xs := [.given scattered (some "Old.java"), missing]
    let r := (empty none).after xs
    let r' := (empty none).after (xs ++ [again])
    let c : LoadedClass := ⟨"demo/Blink$Led", "demo/Blink.java", scatteredAnew⟩
    let l : Location := ⟨"demo/Blink.java", 9, 0, "demo/Blink$Led", "run", "()V"⟩
    (empty none).after (xs ++ [missing]) = r ∧
      r'.classes = r.classes.filter (·.name ≠ c.name) ++ [c] ∧ r'.classes = [c] ∧
      (r'.locate 7 "Old.java").toOption = none ∧ r'.Answers l ∧
      ∃ pre d post, registered none (xs ++ [again]) = pre ++ d :: post ∧
        d.name ∉ post.map (·.name) ∧ d.Shows l := by
  intro missing again xs r r' c l
  have hfirst : (Registration.given scattered (some "Old.java")).entry none =
      .ok ⟨"demo/Blink$Led", "Old.java", scattered⟩ := by decide +kernel
  have hmissing : missing.entry none = .error (.io .notFound) := by decide +kernel
  have hagain : again.entry none = .ok c := by decide +kernel
  have hregistered : registered none (xs ++ [again]) =
      [⟨"demo/Blink$Led", "Old.java", scattered⟩, c] := by
    simp [registered, xs, hfirst, hmissing, hagain, Except.toOption]
  have hr' : r' = ⟨none, [c]⟩ := by
    rw [show r' = _ from after_empty none (xs ++ [again]), hregistered]
    decide +kernel
  have hregister (x : Registration) : r.register x = (x.entry none).map r.put := by
    rw [register_eq, show r.root = none by rw [show r = _ from after_empty none xs]]
  have hfailed : r.register missing = .error (.io .notFound) := by rw [hregister, hmissing]; rfl
  have hdone : r.register again = .ok (r.put c) := by rw [hregister, hagain]; rfl
  have hanswers : r'.Answers l := by
    rw [hr']
    exact Or.inl ⟨9, "demo/Blink.java", by decide +kernel⟩
  obtain ⟨-, -, -, hfails, hsucceeds, -⟩ := classes_after none xs
  obtain ⟨-, -, -, -, -, hlast⟩ := classes_after none (xs ++ [again])
  obtain ⟨c', hc', hafter, hput⟩ := hsucceeds again _ hdone
  refine ⟨hfails missing _ hfailed, ?_, by rw [hr'], ?_, hanswers, hlast l hanswers⟩
  · cases hagain.symm.trans hc'
    rw [← hput, ← hafter]
  · rw [hr']
    decide +kernel

end Registry

end RemoteDebug
