import RemoteDebug.Proofs.Written

/-!
# The constants of a class file

The pool is read as the constants that fill its slots, and passes its check when the references of
every constant lead where they should (`Pool.reads_parse`). A long or double fills two slots, so
the number of constants is not the number of slots (`Entry.Filled`).
-/

namespace RemoteDebug.ClassFile

open Parse

/-! ## The pool -/

namespace Pool

theorem get_eq (pool : Pool) (index : UInt16) :
    pool.get index = match pool.entry? index with
      | none | some .reserved => .error (.badIndex index)
      | some e => .ok e := by
  unfold get entry?
  cases index.toNat with
  | zero => rfl
  | succ slot => rfl

theorem utf8_eq_ok_iff {pool : Pool} {index : UInt16} {text : String} :
    pool.utf8 index = .ok text ↔ pool.text? index = some text := by
  unfold utf8 text?
  rw [get_eq]
  rcases pool.entry? index with _ | e
  · exact ⟨nofun, nofun⟩
  · cases e with
    | utf8 text' => exact ⟨fun h => by cases h; rfl, fun h => by cases h; rfl⟩
    | _ => exact ⟨nofun, nofun⟩

theorem get_of_entry {pool : Pool} {index : UInt16} {e : Entry} (h : pool.entry? index = some e)
    (he : e ≠ .reserved) : pool.get index = .ok e := by
  rw [get_eq, h]
  cases e with
  | reserved => exact absurd rfl he
  | _ => rfl

/-- An index plays a role when its entry does. -/
theorem expect_eq_ok_iff {pool : Pool} {index : UInt16} {role : Role}
    (hrole : role.allows .reserved = false) :
    pool.expect index role = .ok () ↔ ∃ e, pool.entry? index = some e ∧ role.allows e.kind := by
  unfold expect
  cases h : pool.entry? index with
  | none =>
    rw [get_eq, h]
    exact ⟨nofun, nofun⟩
  | some e =>
    by_cases he : e = .reserved
    · subst he
      rw [get_eq, h]
      refine ⟨nofun, ?_⟩
      rintro ⟨e, he, hk⟩
      cases he
      simp [Entry.kind, hrole] at hk
    · rw [get_of_entry h he]
      cases hk : role.allows e.kind <;>
        simp [bind, Except.bind, hk, pure, Except.pure, throw, throwThe, MonadExceptOf.throw]

theorem expect_utf8_iff {pool : Pool} {index : UInt16} :
    pool.expect index .utf8 = .ok () ↔ (pool.text? index).isSome := by
  rw [expect_eq_ok_iff rfl, text?]
  constructor
  · rintro ⟨e, he, hk⟩
    cases e <;> simp_all [Role.allows, Entry.kind]
  · intro h
    split at h
    · next text he => exact ⟨_, he, rfl⟩
    · simp at h

theorem expect_classRef_iff {pool : Pool} {index : UInt16} :
    pool.expect index .classRef = .ok () ↔ pool.HasClass index := by
  rw [expect_eq_ok_iff rfl]
  constructor
  · rintro ⟨e, he, hk⟩
    cases e <;> simp_all [Role.allows, Entry.kind, HasClass]
  · rintro ⟨name, he⟩
    exact ⟨_, he, rfl⟩

theorem expect_nameAndType_iff {pool : Pool} {index : UInt16} :
    pool.expect index .nameAndType = .ok () ↔ pool.HasNameAndType index := by
  rw [expect_eq_ok_iff rfl]
  constructor
  · rintro ⟨e, he, hk⟩
    cases e <;> simp_all [Role.allows, Entry.kind, HasNameAndType]
  · rintro ⟨name, descriptor, he⟩
    exact ⟨_, he, rfl⟩

theorem expect_member_iff {pool : Pool} {index : UInt16} :
    pool.expect index .member = .ok () ↔ pool.HasMember index := by
  rw [expect_eq_ok_iff rfl]
  constructor
  · rintro ⟨e, he, hk⟩
    cases e <;> simp_all [Role.allows, Entry.kind, HasMember]
  · rintro ⟨owner, member, he | he | he⟩
    · exact ⟨_, he, rfl⟩
    · exact ⟨_, he, rfl⟩
    · exact ⟨_, he, rfl⟩

end Pool

theorem forM_eq_ok_iff {α ε : Type} {f : α → Except ε Unit} {l : List α} :
    l.forM f = .ok () ↔ ∀ a ∈ l, f a = .ok () := by
  induction l with
  | nil => simp [List.forM, pure, Except.pure]
  | cons a l ih =>
    rw [List.forall_mem_cons, ← ih, List.forM_eq_forM, List.forM_cons]
    cases f a with
    | error e => exact ⟨nofun, nofun⟩
    | ok _ => exact ⟨fun h => ⟨rfl, h⟩, fun h => h.2⟩

/-- The references of a constant pass the check when they lead where they should. -/
theorem Written.Constant.linked_iff {pool : Pool} {k : Constant} :
    k.Linked pool ↔
      ∀ e ∈ k.slots, ∀ r ∈ e.references, pool.expect r.1 r.2 = .ok () := by
  cases k <;> simp only [Linked, slots, entry, Entry.references, List.forall_mem_cons,
    List.not_mem_nil, false_implies, implies_true, and_true, Pool.expect_utf8_iff,
    Pool.expect_classRef_iff, Pool.expect_nameAndType_iff, Pool.expect_member_iff]

theorem Pool.check_eq_ok_iff {pool : Pool} {ks : List Written.Constant}
    (hp : pool.slots.toList = ks.flatMap Written.Constant.slots) :
    pool.check = .ok () ↔ ∀ k ∈ ks, k.Linked pool := by
  unfold Pool.check
  rw [hp, forM_eq_ok_iff]
  simp only [List.mem_flatMap, forM_eq_ok_iff, Written.Constant.linked_iff]
  constructor
  · intro h k hk e he
    exact h e ⟨k, hk, he⟩
  · rintro h e ⟨k, hk, he⟩
    exact h k hk e he

/-! ## Constants -/

namespace Entry

open Written (Constant)

theorem reads_two (f : UInt16 → UInt16 → Entry) :
    Reads (do return f (← u16) (← u16)) (.of (fun _ => True)
      (fun d : UInt16 × UInt16 => f d.1 d.2) fun d => Written.word d.1 ++ Written.word d.2) := by
  refine (reads_u16.bind fun v => reads_u16.map (f v)).of_iff fun e bs => ?_
  constructor
  · rintro ⟨v, _, _, rfl, ⟨w, rfl, rfl⟩, rfl⟩
    exact ⟨(v, w), trivial, rfl, rfl⟩
  · rintro ⟨⟨v, w⟩, -, rfl, rfl⟩
    exact ⟨v, _, _, rfl, ⟨w, rfl, rfl⟩, rfl⟩

theorem reads_methodHandle :
    Reads (do return methodHandle (← u8) (← u16)) (.of (fun _ => True)
      (fun d : UInt8 × UInt16 => methodHandle d.1 d.2) fun d => d.1 :: Written.word d.2) := by
  refine (reads_u8.bind fun v => reads_u16.map (methodHandle v)).of_iff fun e bs => ?_
  constructor
  · rintro ⟨v, _, _, rfl, ⟨w, rfl, rfl⟩, rfl⟩
    exact ⟨(v, w), trivial, rfl, by rw [Bytes.toBig_one]; rfl⟩
  · rintro ⟨⟨v, w⟩, -, rfl, rfl⟩
    exact ⟨v, _, _, rfl, ⟨w, rfl, rfl⟩, by rw [Bytes.toBig_one]; rfl⟩

theorem reads_utf8 :
    Reads (do
      let length ← u16
      return utf8 (Utf8.decodeLossy (← bytes length.toNat)))
      (.of (fun text : Bytes => text.length < UInt16.size)
        (fun text => utf8 (Utf8.decodeLossy text))
        fun text => Bytes.toBig 2 text.length ++ text) := by
  refine (reads_u16.bind fun n => (reads_bytes n.toNat).map fun text =>
    utf8 (Utf8.decodeLossy text)).of_iff fun e bs => ?_
  constructor
  · rintro ⟨n, _, text, rfl, ⟨_, ⟨rfl, hn⟩, rfl⟩, rfl⟩
    have hlt : text.length < UInt16.size := by rw [hn]; exact n.toNat_lt
    exact ⟨text, hlt, rfl, by simp only [hn]⟩
  · rintro ⟨text, hn, rfl, rfl⟩
    have hw : (UInt16.ofNat text.length).toNat = text.length := UInt16.toNat_ofNat_of_lt hn
    exact ⟨UInt16.ofNat text.length, _, _, rfl, ⟨text, ⟨rfl, hw.symm⟩, rfl⟩, by rw [hw]⟩

/-- A tag announces the constants that have it. -/
theorem reads_tag (tag : UInt8) :
    Reads (read tag) (.of (fun k : Constant => k.tag = tag ∧ k.Fits) Constant.entry
      Constant.body) := by
  refine Reads.of_yields_iff fun c e rest => ⟨fun h => ?_, ?_⟩
  · unfold read at h
    split at h
    · obtain ⟨text, hn, rfl, hc⟩ := reads_utf8.yields_iff.mp h
      exact ⟨.utf8 text, ⟨rfl, hn⟩, rfl, hc⟩
    · obtain ⟨bits, -, rfl, hc⟩ := (reads_u32.map_of integer).yields_iff.mp h
      exact ⟨.integer bits, ⟨rfl, trivial⟩, rfl, hc⟩
    · obtain ⟨bits, -, rfl, hc⟩ := (reads_u32.map_of float).yields_iff.mp h
      exact ⟨.float bits, ⟨rfl, trivial⟩, rfl, hc⟩
    · obtain ⟨bits, -, rfl, hc⟩ := (reads_u64.map_of long).yields_iff.mp h
      exact ⟨.long bits, ⟨rfl, trivial⟩, rfl, hc⟩
    · obtain ⟨bits, -, rfl, hc⟩ := (reads_u64.map_of double).yields_iff.mp h
      exact ⟨.double bits, ⟨rfl, trivial⟩, rfl, hc⟩
    · obtain ⟨w, -, rfl, hc⟩ := (reads_u16.map_of classRef).yields_iff.mp h
      exact ⟨.classRef w, ⟨rfl, trivial⟩, rfl, hc⟩
    · obtain ⟨w, -, rfl, hc⟩ := (reads_u16.map_of string).yields_iff.mp h
      exact ⟨.string w, ⟨rfl, trivial⟩, rfl, hc⟩
    · obtain ⟨d, -, rfl, hc⟩ := (reads_two fieldRef).yields_iff.mp h
      exact ⟨.fieldRef d.1 d.2, ⟨rfl, trivial⟩, rfl, hc⟩
    · obtain ⟨d, -, rfl, hc⟩ := (reads_two methodRef).yields_iff.mp h
      exact ⟨.methodRef d.1 d.2, ⟨rfl, trivial⟩, rfl, hc⟩
    · obtain ⟨d, -, rfl, hc⟩ := (reads_two interfaceMethodRef).yields_iff.mp h
      exact ⟨.interfaceMethodRef d.1 d.2, ⟨rfl, trivial⟩, rfl, hc⟩
    · obtain ⟨d, -, rfl, hc⟩ := (reads_two nameAndType).yields_iff.mp h
      exact ⟨.nameAndType d.1 d.2, ⟨rfl, trivial⟩, rfl, hc⟩
    · obtain ⟨d, -, rfl, hc⟩ := reads_methodHandle.yields_iff.mp h
      exact ⟨.methodHandle d.1 d.2, ⟨rfl, trivial⟩, rfl, hc⟩
    · obtain ⟨w, -, rfl, hc⟩ := (reads_u16.map_of methodType).yields_iff.mp h
      exact ⟨.methodType w, ⟨rfl, trivial⟩, rfl, hc⟩
    · obtain ⟨d, -, rfl, hc⟩ := (reads_two invokeDynamic).yields_iff.mp h
      exact ⟨.invokeDynamic d.1 d.2, ⟨rfl, trivial⟩, rfl, hc⟩
    · obtain ⟨c', h, -⟩ := h
      cases h
  · rintro ⟨k, ⟨rfl, hk⟩, rfl, hc⟩
    cases k with
    | utf8 text => exact reads_utf8.yields_iff.mpr ⟨text, hk, rfl, hc⟩
    | integer bits => exact (reads_u32.map_of integer).yields_iff.mpr ⟨bits, trivial, rfl, hc⟩
    | float bits => exact (reads_u32.map_of float).yields_iff.mpr ⟨bits, trivial, rfl, hc⟩
    | long bits => exact (reads_u64.map_of long).yields_iff.mpr ⟨bits, trivial, rfl, hc⟩
    | double bits => exact (reads_u64.map_of double).yields_iff.mpr ⟨bits, trivial, rfl, hc⟩
    | classRef w => exact (reads_u16.map_of classRef).yields_iff.mpr ⟨w, trivial, rfl, hc⟩
    | string w => exact (reads_u16.map_of string).yields_iff.mpr ⟨w, trivial, rfl, hc⟩
    | methodType w => exact (reads_u16.map_of methodType).yields_iff.mpr ⟨w, trivial, rfl, hc⟩
    | fieldRef v w => exact (reads_two fieldRef).yields_iff.mpr ⟨(v, w), trivial, rfl, hc⟩
    | methodRef v w => exact (reads_two methodRef).yields_iff.mpr ⟨(v, w), trivial, rfl, hc⟩
    | interfaceMethodRef v w =>
      exact (reads_two interfaceMethodRef).yields_iff.mpr ⟨(v, w), trivial, rfl, hc⟩
    | nameAndType v w => exact (reads_two nameAndType).yields_iff.mpr ⟨(v, w), trivial, rfl, hc⟩
    | methodHandle v w => exact reads_methodHandle.yields_iff.mpr ⟨(v, w), trivial, rfl, hc⟩
    | invokeDynamic v w =>
      exact (reads_two invokeDynamic).yields_iff.mpr ⟨(v, w), trivial, rfl, hc⟩

theorem reads_constant : Reads (do read (← u8)) (.of Constant.Fits Constant.entry
    Constant.encode) := by
  refine (reads_u8.bind reads_tag).of_iff fun e bs => ?_
  constructor
  · rintro ⟨_, _, _, rfl, ⟨k, ⟨rfl, hk⟩, rfl, rfl⟩, rfl⟩
    exact ⟨k, hk, rfl, by rw [Bytes.toBig_one]; rfl⟩
  · rintro ⟨k, hk, rfl, rfl⟩
    exact ⟨k.tag, _, _, rfl, ⟨k, ⟨rfl, hk⟩, rfl, rfl⟩, by rw [Bytes.toBig_one]; rfl⟩

theorem slots_of_isWide {k : Constant} (hk : k.entry.isWide = true) :
    k.slots = [k.entry, .reserved] := by
  cases k <;> simp_all [isWide, kind, Constant.entry, Constant.slots]

theorem slots_of_not_isWide {k : Constant} (hk : k.entry.isWide = false) :
    k.slots = [k.entry] := by
  cases k <;> simp_all [isWide, kind, Constant.entry, Constant.slots]

/-- The form of `n` slots : the constants that fill them. -/
def Filled (n : Nat) : Form (List Entry) :=
  .of (fun ks : List Constant => (ks.flatMap Constant.slots).length = n ∧ ∀ k ∈ ks, k.Fits)
    (List.flatMap Constant.slots) (List.flatMap Constant.encode)

theorem filled_zero_iff {es : List Entry} {bs : Bytes} : Filled 0 es bs ↔ es = [] ∧ bs = [] := by
  constructor
  · rintro ⟨ks, ⟨hn, -⟩, rfl, rfl⟩
    cases ks with
    | nil => exact ⟨rfl, rfl⟩
    | cons k ks => cases k <;> simp [Constant.slots] at hn
  · rintro ⟨rfl, rfl⟩
    exact ⟨[], by simp, rfl, rfl⟩

/-- Slots are those of a first constant and those of the others. -/
theorem filled_succ_iff {n : Nat} {es : List Entry} {bs : Bytes} : Filled (n + 1) es bs ↔
    ∃ (k : Constant) (back : Bytes), k.Fits ∧
      (∃ m es', Filled m es' back ∧ k.slots.length + m = n + 1 ∧ es = k.slots ++ es') ∧
        bs = k.encode ++ back := by
  constructor
  · rintro ⟨ks, ⟨hn, hks⟩, rfl, rfl⟩
    cases ks with
    | nil => simp at hn
    | cons k ks =>
      have hk := List.forall_mem_cons.mp hks
      refine ⟨k, _, hk.1, ⟨_, _, ⟨ks, ⟨rfl, hk.2⟩, rfl, rfl⟩, ?_, rfl⟩, rfl⟩
      simpa using hn
  · rintro ⟨k, _, hk, ⟨m, _, ⟨ks, ⟨rfl, hks⟩, rfl, rfl⟩, hn, rfl⟩, rfl⟩
    refine ⟨k :: ks, ⟨?_, List.forall_mem_cons.mpr ⟨hk, hks⟩⟩, rfl, rfl⟩
    simpa using hn

/-- Slots are read as the constants that fill them. -/
theorem reads_readSlots (slots n : Nat) : Reads (readSlots slots n) (Filled n) := by
  induction n using Nat.strongRecOn with
  | ind n ih =>
    match n with
    | 0 => exact (reads_pure []).of_iff fun es bs => filled_zero_iff.symm
    | n + 1 =>
      rw [readSlots, ← bind_assoc]
      refine (reads_constant.bind_of (N := fun k es back => ∃ m es', Filled m es' back ∧
        k.slots.length + m = n + 1 ∧ es = k.slots ++ es') fun k _ => ?_).of_iff
          fun es bs => filled_succ_iff.symm
      cases hw : k.entry.isWide with
      | false =>
        rw [slots_of_not_isWide hw]
        refine ((ih n (by omega)).map (k.entry :: ·)).of_iff fun es bs => ?_
        constructor
        · rintro ⟨es', h, rfl⟩
          exact ⟨n, es', h, by simp; omega, rfl⟩
        · rintro ⟨m, es', h, hm, rfl⟩
          obtain rfl : m = n := by simp at hm; omega
          exact ⟨es', h, rfl⟩
      | true =>
        rw [slots_of_isWide hw]
        match n with
        | 0 =>
          refine (reads_throw _).of_iff fun es bs => ⟨nofun, ?_⟩
          rintro ⟨m, es', -, hm, -⟩
          simp at hm
          omega
        | n + 1 =>
          refine ((ih n (by omega)).map (k.entry :: .reserved :: ·)).of_iff fun es bs => ?_
          constructor
          · rintro ⟨es', h, rfl⟩
            exact ⟨n, es', h, by simp; omega, rfl⟩
          · rintro ⟨m, es', h, hm, rfl⟩
            obtain rfl : m = n := by simp at hm; omega
            exact ⟨es', h, rfl⟩

end Entry

/-- The pool is read as a count and constants that fill as many slots as it says. -/
theorem Pool.reads_parse : Reads Pool.parse (.of
    (fun d : UInt16 × List Written.Constant =>
      (d.2.flatMap Written.Constant.slots).length = d.1.toNat - 1 ∧ (∀ k ∈ d.2, k.Fits) ∧
        ∀ k ∈ d.2, k.Linked (Written.poolOf d.2))
    (fun d => Written.poolOf d.2)
    fun d => Written.word d.1 ++ d.2.flatMap Written.Constant.encode) := by
  refine (reads_u16.bind fun w => (Entry.reads_readSlots (w.toNat - 1) (w.toNat - 1)).bind
    fun es => (reads_lift (Pool.check ⟨es.toArray⟩)).map
      fun _ => (⟨es.toArray⟩ : Pool)).of_iff fun pool bs => ?_
  constructor
  · rintro ⟨w, _, _, rfl, ⟨_, _, _, ⟨ks, ⟨hn, hks⟩, rfl, rfl⟩, ⟨_, ⟨hcheck, rfl⟩, rfl⟩, rfl⟩, rfl⟩
    exact ⟨(w, ks), ⟨hn, hks, (Pool.check_eq_ok_iff rfl).mp hcheck⟩, rfl, by simp [Written.word]⟩
  · rintro ⟨⟨w, ks⟩, ⟨hn, hks, hlinked⟩, rfl, rfl⟩
    exact ⟨w, _, _, rfl, ⟨_, _, _, ⟨ks, ⟨hn, hks⟩, rfl, rfl⟩,
      ⟨(), ⟨(Pool.check_eq_ok_iff rfl).mpr hlinked, rfl⟩, rfl⟩, rfl⟩, by simp [Written.word]⟩

end RemoteDebug.ClassFile
