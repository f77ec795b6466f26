import Mathlib.Control.Monad.Basic
import RemoteDebug.Proofs.Constants

/-!
# Pools that are closed under lookup

A pool that was read has no index that leads nowhere. Every reference of every entry can be
followed, those forward as well as those backward, and to the end : a class to its name, a member to
its class, its name and its descriptor (`Entry.Resolves`). What cannot be looked up is an index that
names no entry, and that shows at once (`Pool.get_eq_error_iff`).

Two things come together. The slots are filled by constants one after the other, so a reserved slot
is the second one of a long or a double and never anything else (`paired_slots`). And the check at
the end of `Pool.parse` looks at the first step of every reference. Later steps are first steps of
other entries, so that they have been looked at as well (`Pool.Linked.resolves`).
-/

namespace RemoteDebug.ClassFile

open Written (Constant)

/-! ## Reserved slots -/

/-- A slot is reserved exactly if a long or a double stands in the slot before it. -/
structure Paired (es : List Entry) : Prop where
  head_ne : es[0]? ≠ some .reserved
  reserved_iff : ∀ i, es[i + 1]? = some .reserved ↔
    ∃ bits, es[i]? = some (.long bits) ∨ es[i]? = some (.double bits)

theorem paired_nil : Paired [] := ⟨by simp, by simp⟩

theorem Paired.cons {es : List Entry} {e : Entry} (h : Paired es) (hwide : e.isWide = false)
    (hne : e ≠ .reserved) : Paired (e :: es) where
  head_ne := by simpa using hne
  reserved_iff i := by
    cases i with
    | zero =>
      refine iff_of_false (by simpa using h.head_ne) ?_
      rintro ⟨bits, he | he⟩
      · cases he
        simp [Entry.isWide, Entry.kind] at hwide
      · cases he
        simp [Entry.isWide, Entry.kind] at hwide
    | succ i => simpa using h.reserved_iff i

theorem Paired.cons_wide {es : List Entry} {e : Entry} (h : Paired es)
    (he : ∃ bits, e = .long bits ∨ e = .double bits) : Paired (e :: .reserved :: es) where
  head_ne := by
    obtain ⟨bits, rfl | rfl⟩ := he <;> simp
  reserved_iff i := by
    match i with
    | 0 => simpa using he
    | 1 => simpa using h.head_ne
    | i + 2 => simpa using h.reserved_iff i

/-- Constants fill slots in pairs where they are wide. -/
theorem paired_slots (ks : List Constant) : Paired (ks.flatMap Constant.slots) := by
  induction ks with
  | nil => exact paired_nil
  | cons k ks ih =>
    rw [List.flatMap_cons]
    cases k with
    | long bits => exact ih.cons_wide ⟨bits, .inl rfl⟩
    | double bits => exact ih.cons_wide ⟨bits, .inr rfl⟩
    | _ => exact ih.cons rfl nofun

namespace Pool

variable {pool : Pool} {index : UInt16} {e : Entry}

/-! ## Lookups -/

theorem entry?_eq_some_iff :
    pool.entry? index = some e ↔ index.toNat ≠ 0 ∧ pool.slots[index.toNat - 1]? = some e := by
  unfold entry?
  cases index.toNat with
  | zero => simp
  | succ slot => simp

/-- An index names no entry exactly if it is 0, past the last slot, or that of a reserved slot. -/
theorem get_eq_error_iff {error : Error} : pool.get index = .error error ↔
    error = .badIndex index ∧ (index = 0 ∨ pool.slots.size < index.toNat ∨
      pool.slots[index.toNat - 1]? = some .reserved) := by
  have hzero : index = 0 ↔ index.toNat = 0 := by rw [← UInt16.toNat_inj]; rfl
  rw [get_eq, entry?, hzero]
  cases index.toNat with
  | zero => simp [eq_comm]
  | succ slot =>
    have hnone : pool.slots[slot]? = none ↔ pool.slots.size < slot + 1 := by
      rw [Array.getElem?_eq_none_iff, Nat.lt_succ_iff]
    dsimp only
    rw [← hnone, Nat.add_sub_cancel]
    cases pool.slots[slot]? with
    | none => simp [eq_comm]
    | some e => cases e <;> simp [eq_comm]

theorem className_of_entry {name : UInt16} (h : pool.entry? index = some (.classRef name)) :
    pool.className index = pool.utf8 name := by
  rw [className, get_of_entry h nofun]
  rfl

theorem nameAndType_of_entry {name descriptor : UInt16}
    (h : pool.entry? index = some (.nameAndType name descriptor)) :
    pool.nameAndType index = do return (← pool.utf8 name, ← pool.utf8 descriptor) := by
  rw [nameAndType, get_of_entry h nofun]
  rfl

/-! ## References -/

/-- Every reference of every entry leads to an entry of the expected role. -/
def Linked (pool : Pool) : Prop :=
  ∀ e ∈ pool.slots.toList, ∀ r ∈ e.references, pool.expect r.1 r.2 = .ok ()

theorem Linked.expect (h : pool.Linked) (he : pool.entry? index = some e) :
    ∀ r ∈ e.references, pool.expect r.1 r.2 = .ok () := by
  have hslot := (entry?_eq_some_iff.mp he).2
  rw [← Array.getElem?_toList] at hslot
  exact h e (List.mem_of_getElem? hslot)

theorem exists_utf8_of_expect (h : pool.expect index .utf8 = .ok ()) :
    ∃ text, pool.utf8 index = .ok text := by
  obtain ⟨text, htext⟩ := Option.isSome_iff_exists.mp (expect_utf8_iff.mp h)
  exact ⟨text, utf8_eq_ok_iff.mpr htext⟩

/-- A class that is referred to has a name. -/
theorem Linked.exists_className (h : pool.Linked) (hclass : pool.HasClass index) :
    ∃ name, pool.className index = .ok name := by
  obtain ⟨name, he⟩ := hclass
  rw [className_of_entry he]
  exact exists_utf8_of_expect (h.expect he _ List.mem_cons_self)

/-- A name with a type that is referred to has both. -/
theorem Linked.exists_nameAndType (h : pool.Linked) (hmember : pool.HasNameAndType index) :
    ∃ both, pool.nameAndType index = .ok both := by
  obtain ⟨name, descriptor, he⟩ := hmember
  have hrefs := h.expect he
  obtain ⟨text, htext⟩ := exists_utf8_of_expect (hrefs _ List.mem_cons_self)
  obtain ⟨type, htype⟩ :=
    exists_utf8_of_expect (hrefs _ (List.mem_cons_of_mem _ List.mem_cons_self))
  rw [nameAndType_of_entry he, htext, htype]
  exact ⟨(text, type), rfl⟩

end Pool

/-- What the entry at an index refers to can be looked up. -/
def Entry.Resolves (pool : Pool) (index : UInt16) : Entry → Prop
  | .classRef _ => ∃ name, pool.className index = .ok name
  | .nameAndType _ _ => ∃ both, pool.nameAndType index = .ok both
  | .string text => ∃ s, pool.utf8 text = .ok s
  | .methodType descriptor => ∃ s, pool.utf8 descriptor = .ok s
  | .fieldRef owner member | .methodRef owner member | .interfaceMethodRef owner member =>
    (∃ name, pool.className owner = .ok name) ∧ ∃ both, pool.nameAndType member = .ok both
  | .methodHandle _ target => pool.HasMember target
  | .invokeDynamic _ member => pool.HasNameAndType member
  | .utf8 _ | .integer _ | .float _ | .long _ | .double _ | .reserved => True

namespace Pool

variable {pool : Pool} {index : UInt16} {e : Entry}

/-- Where the first step of every reference is right, every reference can be followed. -/
theorem Linked.resolves (h : pool.Linked) (he : pool.entry? index = some e) :
    e.Resolves pool index := by
  have hrefs := h.expect he
  have hmember {owner member : UInt16}
      (hrefs : ∀ r ∈ [(owner, Role.classRef), (member, Role.nameAndType)],
        pool.expect r.1 r.2 = .ok ()) :
      (∃ name, pool.className owner = .ok name) ∧ ∃ both, pool.nameAndType member = .ok both := by
    simp only [List.forall_mem_cons] at hrefs
    exact ⟨h.exists_className (expect_classRef_iff.mp hrefs.1),
      h.exists_nameAndType (expect_nameAndType_iff.mp hrefs.2.1)⟩
  cases e with
  | classRef name => exact h.exists_className ⟨name, he⟩
  | nameAndType name descriptor => exact h.exists_nameAndType ⟨name, descriptor, he⟩
  | string text => exact exists_utf8_of_expect (hrefs _ List.mem_cons_self)
  | methodType descriptor => exact exists_utf8_of_expect (hrefs _ List.mem_cons_self)
  | fieldRef owner member => exact hmember hrefs
  | methodRef owner member => exact hmember hrefs
  | interfaceMethodRef owner member => exact hmember hrefs
  | methodHandle kind target => exact expect_member_iff.mp (hrefs _ List.mem_cons_self)
  | invokeDynamic bootstrap member => exact expect_nameAndType_iff.mp (hrefs _ List.mem_cons_self)
  | _ => trivial

/-! ## Pools that were read -/

theorem linked_poolOf {ks : List Constant} (h : ∀ k ∈ ks, k.Linked (Written.poolOf ks)) :
    (Written.poolOf ks).Linked := by
  intro e he
  obtain ⟨k, hk, he⟩ := List.mem_flatMap.mp he
  exact Constant.linked_iff.mp (h k hk) e he

/-- Whatever a pool is read from, with a count of `n` in front :

* it has `n - 1` slots, or none if `n` is 0;
* the first slot is not reserved, and any other exactly if a long or a double stands before it;
* a lookup fails exactly for index 0, for an index past the last slot and for a reserved slot, and
  the error names the index;
* whatever an entry refers to can be looked up. -/
theorem closed_of_parse {c c' : Cursor} (h : Pool.parse c = .ok (pool, c')) :
    ∃ n : UInt16, c.rest.take 2 = Written.word n ∧ pool.slots.size = n.toNat - 1 ∧
      Paired pool.slots.toList ∧
      (∀ (i : UInt16) (error : Error), pool.get i = .error error ↔ error = .badIndex i ∧
        (i = 0 ∨ pool.slots.size < i.toNat ∨ pool.slots[i.toNat - 1]? = some .reserved)) ∧
      ∀ (k : Nat) (e : Entry), pool.slots[k]? = some e →
        e.Resolves pool (UInt16.ofNat (k + 1)) := by
  obtain ⟨⟨n, ks⟩, ⟨hslots, -, hlinked⟩, rfl, hc⟩ := reads_parse.yields_iff.mp ⟨c', h, rfl⟩
  have hsize : (Written.poolOf ks).slots.size = n.toNat - 1 := by
    simpa [Written.poolOf] using hslots
  refine ⟨n, ?_, hsize, paired_slots ks, fun i error => get_eq_error_iff, fun k e he => ?_⟩
  · rw [hc, List.append_assoc]
    exact List.take_left' (Bytes.length_toBig 2 _)
  · have hk : k < n.toNat - 1 := hsize ▸ (Array.getElem?_eq_some_iff.mp he).1
    have hindex : (UInt16.ofNat (k + 1)).toNat = k + 1 := by
      have := n.toNat_lt
      exact UInt16.toNat_ofNat_of_lt (by simp only [UInt16.size]; omega)
    refine (linked_poolOf hlinked).resolves (entry?_eq_some_iff.mpr ?_)
    rw [hindex]
    exact ⟨Nat.succ_ne_zero k, he⟩

/-- A pool whose references lead forward and backward, around a long. -/
def intertwined : List Constant :=
  [.methodHandle 6 4, .long 7, .methodRef 6 5, .nameAndType 8 9, .classRef 7, .utf8 [77],
    .utf8 [114, 117, 110], .utf8 [40, 41, 86], .string 7, .methodType 9, .invokeDynamic 0 5]

/-- Index 3 is the second slot of the long, and index 13 is past the last slot. The member in slot 4
leads to a class in slot 6 and to a name with a type in slot 5, which lead on to texts. -/
theorem closed_of_parse_intertwined :
    let pool := Written.poolOf intertwined
    Pool.parse (Cursor.start (Written.word 13 ++ intertwined.flatMap Constant.encode)) =
        .ok (pool, ⟨[], 55⟩) ∧
      Paired pool.slots.toList ∧ pool.get 3 = .error (.badIndex 3) ∧
      pool.get 13 = .error (.badIndex 13) ∧
      (∃ name, pool.className 6 = .ok name) ∧ ∃ both, pool.nameAndType 5 = .ok both := by
  intro pool
  have hread : Pool.parse (Cursor.start (Written.word 13 ++ intertwined.flatMap Constant.encode)) =
      .ok (pool, ⟨[], 55⟩) := by decide +kernel
  obtain ⟨n, -, -, hpaired, hget, hresolves⟩ := closed_of_parse hread
  refine ⟨hread, hpaired, (hget 3 _).mpr ⟨rfl, ?_⟩, (hget 13 _).mpr ⟨rfl, ?_⟩, ?_⟩
  · exact .inr (.inr rfl)
  · exact .inr (.inl (by decide))
  · exact hresolves 3 (.methodRef 6 5) rfl

end Pool

end RemoteDebug.ClassFile
