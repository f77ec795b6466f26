import RemoteDebug.Proofs.Checked
import RemoteDebug.Proofs.PoolClosure
import RemoteDebug.Proofs.Truncation

/-!
# Errors that tell the truth

When a class file is refused, the error names places, lengths and constants. This module is about
whether they are so (`Error.TrueOf`). Some of them can be checked against the class file alone : the
mark, the tag of a constant, and all that is said of the pool. For these the pool is the one that
stands in the bytes (`HasPool`), since an error may well come before there is a value of it. Others
are about the reader that was in use, which has the whole class file or the body of some attribute
(`InUse`), and counts from the start of what it has.

A checked program and the reader that it stands for agree if they end alike from every position of a
buffer, and if an error that they end with tells the truth (`Checked.Agrees`). This includes that no
mishap happens, since no position ever passes the end of the buffer, and the length of the buffer is
a word. Agreement is carried through programs in a row, with the result of the first at hand for the
second (`Checked.AgreesAt.bind`) : that the count came before the slots, or the name of an attribute
before its length, is what makes the errors true. For attributes in attributes there is an induction
on the length of the buffer, since the body of an attribute is shorter than what it stands in.

So every class file is read without a mishap, and refused for a reason that holds
(`parse_error_trueOf`).
-/

namespace RemoteDebug.ClassFile

open Written (Constant)

/-! ## What errors say -/

/-- The bytes that a reader has while `bs` is read : all of them, or the body of an attribute that
stands in the bytes of a reader. -/
inductive InUse (bs : Bytes) : Bytes → Prop where
  | whole : InUse bs bs
  | body {front body back : Bytes} {name : UInt16}
      (h : InUse bs (front ++ (Written.word name ++ Bytes.toBig 4 body.length ++ body) ++ back)) :
      InUse bs body

/-- The bytes of a reader are a slice of the class file. -/
theorem InUse.isInfix {bs buffer : Bytes} (h : InUse bs buffer) : buffer <:+: bs := by
  induction h with
  | whole => exact List.infix_rfl
  | @body front body back name h ih =>
    refine List.IsInfix.trans ⟨front ++ Written.word name ++ Bytes.toBig 4 body.length, back, ?_⟩ ih
    simp

theorem InUse.length_le {bs buffer : Bytes} (h : InUse bs buffer) : buffer.length ≤ bs.length :=
  h.isInfix.length_le

/-- The count that a class file has in front of its pool, after the mark and the versions. -/
def HasCount (bs : Bytes) (n : UInt16) : Prop := (bs.drop 8).take 2 = Written.word n

/-- The pool that stands in a class file behind its count, whether its references are right or
not. -/
def HasPool (bs : Bytes) (n : UInt16) (pool : Pool) : Prop :=
  ∃ constants back, bs.drop 8 = Written.word n ++ constants.flatMap Constant.encode ++ back ∧
    (∀ k ∈ constants, k.Fits) ∧ (constants.flatMap Constant.slots).length = n.toNat - 1 ∧
    pool = Written.poolOf constants

/-- The index is that of the second slot of a long or a double. -/
def Pool.IsSecond (pool : Pool) (index : UInt16) : Prop :=
  ∃ slot bits, index.toNat = slot + 2 ∧
    (pool.slots[slot]? = some (.long bits) ∨ pool.slots[slot]? = some (.double bits))

/-- The tags that constants have. -/
def tags : List UInt8 := [1, 3, 4, 5, 6, 7, 8, 9, 10, 11, 12, 15, 16, 18]

/-- What the error says is so, of the class file `bs` and of the reader in use. -/
def Error.TrueOf (bs : Bytes) (r : Reader) : Error → Prop
  | .io _ => False
  | .endOfFile offset needed =>
    offset = r.position ∧ offset ≤ r.buffer.length ∧ r.buffer.length < offset + needed
  | .badMagic found => bs.take 4 = Bytes.toBig 4 found.toNat ∧ found ≠ mark
  | .unknownTag tag offset => bs[offset]? = some tag ∧ tag ∉ tags
  | .badIndex index => ∃ n, HasCount bs n ∧ (index = 0 ∨ n.toNat - 1 < index.toNat ∨
      ∃ pool, HasPool bs n pool ∧ pool.IsSecond index)
  | .wrongKind index expected found => ∃ n pool e, HasPool bs n pool ∧
      pool.entry? index = some e ∧ e.kind = found ∧ expected.allows found = false
  | .overrun name length remaining => remaining < length ∧ length < UInt32.size ∧
      ∃ n pool i front last, HasPool bs n pool ∧ pool.text? i = some name ∧
        r.buffer = front ++ Written.word i ++ Bytes.toBig 4 length ++ last ∧
        last.length = remaining

/-! ## Errors of the pool -/

namespace Pool

variable {bs : Bytes} {r : Reader} {n : UInt16} {pool : Pool} {index : UInt16} {e : Error}

theorem hasCount_of_hasPool (h : HasPool bs n pool) : HasCount bs n := by
  obtain ⟨constants, back, hbs, -⟩ := h
  rw [HasCount, hbs, List.append_assoc]
  exact List.take_left' (Bytes.length_toBig 2 _)

theorem trueOf_of_get (h : HasPool bs n pool) (he : pool.get index = .error e) :
    e.TrueOf bs r := by
  obtain ⟨rfl, hindex⟩ := get_eq_error_iff.mp he
  refine ⟨n, hasCount_of_hasPool h, ?_⟩
  obtain ⟨constants, back, -, -, hslots, rfl⟩ := id h
  have hsize : (Written.poolOf constants).slots.size = n.toNat - 1 := by
    simpa [Written.poolOf] using hslots
  rcases hindex with hzero | hpast | hreserved
  · exact .inl hzero
  · exact .inr (.inl (hsize ▸ hpast))
  · refine .inr (.inr ⟨_, h, ?_⟩)
    have hpaired := paired_slots constants
    rw [← Array.getElem?_toList] at hreserved
    cases hslot : index.toNat - 1 with
    | zero =>
      rw [hslot] at hreserved
      exact absurd hreserved hpaired.head_ne
    | succ slot =>
      rw [hslot] at hreserved
      obtain ⟨bits, hwide⟩ := (hpaired.reserved_iff slot).mp hreserved
      exact ⟨slot, bits, by omega, by simpa [Written.poolOf] using hwide⟩

theorem entry?_of_get {entry : Entry} (h : pool.get index = .ok entry) :
    pool.entry? index = some entry := by
  rw [get_eq] at h
  split at h
  · cases h
  · cases h
  · next hentry => cases h; exact hentry

theorem trueOf_of_utf8 (h : HasPool bs n pool) (he : pool.utf8 index = .error e) :
    e.TrueOf bs r := by
  cases hget : pool.get index with
  | error e' =>
    rw [utf8, hget] at he
    cases he
    exact trueOf_of_get h hget
  | ok entry =>
    rw [utf8, hget] at he
    cases entry with
    | utf8 text => cases he
    | _ =>
      cases he
      exact ⟨n, pool, _, h, entry?_of_get hget, rfl, rfl⟩

theorem trueOf_of_expect {role : Role} (h : HasPool bs n pool)
    (he : pool.expect index role = .error e) : e.TrueOf bs r := by
  cases hget : pool.get index with
  | error e' =>
    rw [expect, hget] at he
    cases he
    exact trueOf_of_get h hget
  | ok entry =>
    rw [expect, hget] at he
    change (if role.allows entry.kind then pure () else throw _) = Except.error e at he
    split at he
    · cases he
    · next hrole =>
      cases he
      exact ⟨n, pool, entry, h, entry?_of_get hget, rfl, by simpa using hrole⟩

end Pool

theorem exists_of_forM_eq_error {α ε : Type} {f : α → Except ε Unit} {l : List α} {e : ε}
    (h : l.forM f = .error e) : ∃ a ∈ l, f a = .error e := by
  induction l with
  | nil => cases h
  | cons a l ih =>
    rw [List.forM_eq_forM, List.forM_cons] at h
    cases ha : f a with
    | error e' =>
      rw [ha] at h
      cases h
      exact ⟨a, List.mem_cons_self, ha⟩
    | ok u =>
      rw [ha] at h
      obtain ⟨b, hb, he⟩ := ih h
      exact ⟨b, List.mem_cons_of_mem _ hb, he⟩

theorem Pool.trueOf_of_check {bs : Bytes} {r : Reader} {n : UInt16} {pool : Pool} {e : Error}
    (h : HasPool bs n pool) (he : pool.check = .error e) : e.TrueOf bs r := by
  obtain ⟨entry, -, he⟩ := exists_of_forM_eq_error he
  obtain ⟨_, -, he⟩ := exists_of_forM_eq_error he
  exact trueOf_of_expect h he

/-! ## Programs that end alike -/

namespace Checked

variable {α β : Type} {bs buffer : Bytes} {pos : Nat} {p : Parse α} {q : Checked α}

/-- From a position of the buffer, both programs end alike : with the same value at the same
position, or with the same error, which tells the truth. -/
inductive AgreesAt (bs buffer : Bytes) (pos : Nat) (p : Parse α) (q : Checked α) : Prop where
  | done {a : α} {stop : Nat} (hstop : stop ≤ buffer.length)
      (hp : p (Reader.cursor ⟨buffer, pos⟩) = .ok (a, Reader.cursor ⟨buffer, stop⟩))
      (hq : q ⟨buffer, pos⟩ = .ok (a, ⟨buffer, stop⟩))
  | refused {e : Error} {r : Reader} (hp : p (Reader.cursor ⟨buffer, pos⟩) = .error e)
      (hq : q ⟨buffer, pos⟩ = .error (.refused e r)) (hr : InUse bs r.buffer)
      (he : e.TrueOf bs r)

theorem AgreesAt.bind {k : α → Parse β} {l : α → Checked β} (h : AgreesAt bs buffer pos p q)
    (hk : ∀ a stop, stop ≤ buffer.length →
      p (Reader.cursor ⟨buffer, pos⟩) = .ok (a, Reader.cursor ⟨buffer, stop⟩) →
      AgreesAt bs buffer stop (k a) (l a)) :
    AgreesAt bs buffer pos (p >>= k) (q >>= l) := by
  cases h with
  | refused hp hq hr he =>
    refine .refused (Parse.bind_eq_error_iff.mpr (.inl hp)) ?_ hr he
    simp only [Bind.bind, StateT.bind, hq, Except.bind]
  | @done a stop hstop hp hq =>
    have hql : (q >>= l) ⟨buffer, pos⟩ = l a ⟨buffer, stop⟩ := by
      simp only [Bind.bind, StateT.bind, hq, Except.bind]
    cases hk a stop hstop hp with
    | done hstop' hp' hq' =>
      exact .done hstop' (Parse.bind_eq_ok_iff.mpr ⟨a, _, hp, hp'⟩) (hql.trans hq')
    | refused hp' hq' hr he =>
      exact .refused (Parse.bind_eq_error_iff.mpr (.inr ⟨a, _, hp, hp'⟩)) (hql.trans hq') hr he

/-- The programs end alike wherever they start. -/
def Agrees (bs buffer : Bytes) (p : Parse α) (q : Checked α) : Prop :=
  ∀ pos ≤ buffer.length, AgreesAt bs buffer pos p q

theorem Agrees.bind {k : α → Parse β} {l : α → Checked β} (h : Agrees bs buffer p q)
    (hk : ∀ a, Agrees bs buffer (k a) (l a)) : Agrees bs buffer (p >>= k) (q >>= l) :=
  fun pos hpos => (h pos hpos).bind fun a stop hstop _ => hk a stop hstop

theorem agrees_pure (a : α) : Agrees bs buffer (pure a) (pure a) :=
  fun _ hpos => .done hpos rfl rfl

theorem Agrees.map (h : Agrees bs buffer p q) (f : α → β) :
    Agrees bs buffer (do return f (← p)) (do return f (← q)) :=
  h.bind fun a => agrees_pure (f a)

theorem Agrees.times (h : Agrees bs buffer p q) (n : Nat) :
    Agrees bs buffer (Parse.times p n) (times q n) := by
  induction n with
  | zero => exact agrees_pure []
  | succ n ih => exact h.bind fun a => ih.map (a :: ·)

/-! ## Bytes and words -/

/-- The buffer belongs to a reader, and its positions fit in words. -/
structure Readable (bs buffer : Bytes) : Prop where
  fits : bs.length < USize.size
  inUse : InUse bs buffer

theorem agreesAt_refuse {e : Error} (h : Readable bs buffer) (he : e.TrueOf bs ⟨buffer, pos⟩) :
    AgreesAt bs buffer pos (throw e : Parse α) (refuse e) :=
  .refused rfl rfl h.inUse he

theorem agrees_consult {x : Except Error α} (h : Readable bs buffer)
    (hx : ∀ e r, x = .error e → e.TrueOf bs r) : Agrees bs buffer (liftM x) (consult x) := by
  intro pos hpos
  cases x with
  | ok a => exact agrees_pure a pos hpos
  | error e => exact agreesAt_refuse h (hx e _ rfl)

theorem agrees_remaining : Agrees bs buffer Parse.remaining remaining := by
  intro pos hpos
  have hq : remaining ⟨buffer, pos⟩ = .ok (buffer.length - pos, ⟨buffer, pos⟩) := by
    change sub buffer.length pos ⟨buffer, pos⟩ = _
    rw [sub_eq_pure hpos]
    rfl
  exact .done hpos (refines_remaining hq) hq

theorem agrees_bytes (h : Readable bs buffer) (n : Nat) :
    Agrees bs buffer (Parse.bytes n) (bytes n) := by
  intro pos hpos
  by_cases hn : buffer.length - pos < n
  · have hp : Parse.bytes n (Reader.cursor ⟨buffer, pos⟩) = .error (.endOfFile pos n) := by
      refine if_pos ?_
      simp only [Reader.cursor, List.length_take, List.length_drop]
      omega
    have hq : bytes n ⟨buffer, pos⟩ = .error (.refused (.endOfFile pos n) ⟨buffer, pos⟩) := by
      rw [bytes_eq, if_pos hpos, if_pos hn]
    have hend : buffer.length < pos + n := by omega
    exact .refused hp hq h.inUse ⟨rfl, hpos, hend⟩
  · have hstop : pos + n ≤ buffer.length := by omega
    have hsum : pos + n < USize.size :=
      Nat.lt_of_le_of_lt (Nat.le_trans hstop h.inUse.length_le) h.fits
    have hq : bytes n ⟨buffer, pos⟩ = .ok ((buffer.drop pos).take n, ⟨buffer, pos + n⟩) := by
      rw [bytes_eq, if_pos hpos, if_neg hn, if_pos hsum]
    exact .done hstop (refines_bytes n hq) hq

theorem agrees_skip (h : Readable bs buffer) (n : Nat) :
    Agrees bs buffer (Parse.skip n) (skip n) :=
  (agrees_bytes h n).map fun _ => ()

theorem agrees_word (h : Readable bs buffer) (n : Nat) :
    Agrees bs buffer (Parse.word n) (word n) := by
  rw [word_eq]
  exact (agrees_bytes h n).map Bytes.bigEndian

theorem agrees_u8 (h : Readable bs buffer) : Agrees bs buffer Parse.u8 u8 := (agrees_word h 1).map _

theorem agrees_u16 (h : Readable bs buffer) : Agrees bs buffer Parse.u16 u16 :=
  (agrees_word h 2).map _

theorem agrees_u32 (h : Readable bs buffer) : Agrees bs buffer Parse.u32 u32 :=
  (agrees_word h 4).map _

theorem agrees_u64 (h : Readable bs buffer) : Agrees bs buffer Parse.u64 u64 :=
  (agrees_word h 8).map _

/-- A product of a small word fits. -/
theorem Agrees.mul_bind {m n : Nat} {l : Nat → Checked α} (hm : m < UInt16.size) (hn : n ≤ 8)
    (h : Agrees bs buffer p (l (m * n))) : Agrees bs buffer p (mul USize.size m n >>= l) := by
  have hmul : m * n ≤ UInt16.size * 8 := Nat.mul_le_mul (Nat.le_of_lt hm) hn
  have hsize : m * n < USize.size :=
    Nat.lt_of_le_of_lt hmul (Nat.lt_of_lt_of_le (by decide) USize.le_size)
  rw [mul_eq_pure hsize, pure_bind]
  exact h

/-- What stands between two positions. -/
theorem drop_eq_of_reads {encode : α → Bytes} (hp : Parse.Reads p fun a form => form = encode a)
    {a : α} {stop : Nat}
    (h : p (Reader.cursor ⟨buffer, pos⟩) = .ok (a, Reader.cursor ⟨buffer, stop⟩)) :
    buffer.drop pos = encode a ++ buffer.drop stop := by
  obtain ⟨_, rfl, hc⟩ := (hp _ _ _).mp ⟨_, h, rfl⟩
  exact hc

theorem stop_eq_of_drop {stop : Nat} {front : Bytes} (hpos : pos ≤ buffer.length)
    (hstop : stop ≤ buffer.length) (h : buffer.drop pos = front ++ buffer.drop stop) :
    stop = pos + front.length := by
  have hlen := congrArg List.length h
  simp only [List.length_drop, List.length_append] at hlen
  omega

/-! ## The pool -/

theorem agrees_two (h : Readable bs buffer) (f : UInt16 → UInt16 → Entry) :
    Agrees bs buffer (do return f (← Parse.u16) (← Parse.u16)) (do return f (← u16) (← u16)) :=
  (agrees_u16 h).bind fun v => (agrees_u16 h).map (f v)

theorem entry_of_not_mem {tag : UInt8} (h : tag ∉ tags) : entry tag = (do
    let offset ← sub (← get).position 1
    refuse (.unknownTag tag offset)) := by
  unfold entry
  split
  case h_15 => rfl
  all_goals exact absurd (by decide) h

/-- A tag that no constant has is at the place that the error names. -/
theorem agreesAt_entry (h : Readable bs bs) {tag : UInt8} (hpos : pos + 1 ≤ bs.length)
    (htag : bs[pos]? = some tag) : AgreesAt bs bs (pos + 1) (Entry.read tag) (entry tag) := by
  unfold Entry.read
  split
  · exact ((agrees_u16 h).bind fun length => (agrees_bytes h length.toNat).map _) _ hpos
  · exact (agrees_u32 h).map _ _ hpos
  · exact (agrees_u32 h).map _ _ hpos
  · exact (agrees_u64 h).map _ _ hpos
  · exact (agrees_u64 h).map _ _ hpos
  · exact (agrees_u16 h).map _ _ hpos
  · exact (agrees_u16 h).map _ _ hpos
  · exact agrees_two h _ _ hpos
  · exact agrees_two h _ _ hpos
  · exact agrees_two h _ _ hpos
  · exact agrees_two h _ _ hpos
  · exact ((agrees_u8 h).bind fun kind => (agrees_u16 h).map _) _ hpos
  · exact (agrees_u16 h).map _ _ hpos
  · exact agrees_two h _ _ hpos
  · have hunknown : tag ∉ tags := by
      simp only [tags, List.mem_cons, List.not_mem_nil, or_false, not_or]
      refine ⟨?_, ?_, ?_, ?_, ?_, ?_, ?_, ?_, ?_, ?_, ?_, ?_, ?_, ?_⟩ <;> assumption
    have hq : entry tag ⟨bs, pos + 1⟩ = .error (.refused (.unknownTag tag pos) ⟨bs, pos + 1⟩) := by
      rw [entry_of_not_mem hunknown]
      change (sub (pos + 1) 1 >>= fun offset => refuse (.unknownTag tag offset)) _ = _
      rw [sub_eq_pure (Nat.le_add_left 1 pos), pure_bind]
      rfl
    exact .refused rfl hq h.inUse ⟨htag, hunknown⟩

theorem agrees_entry (h : Readable bs bs) :
    Agrees bs bs (do Entry.read (← Parse.u8)) (do entry (← u8)) := by
  refine fun pos hpos => (agrees_u8 h pos hpos).bind fun tag stop hstop htag => ?_
  have hdrop := drop_eq_of_reads Parse.reads_u8 htag
  rw [Bytes.toBig_one] at hdrop
  obtain rfl : stop = pos + 1 := stop_eq_of_drop hpos hstop hdrop
  refine agreesAt_entry h hstop ?_
  rw [← List.head?_drop, hdrop]
  rfl

/-- The index that a wide entry lacks a slot for is past the slots that the count allows. -/
theorem agrees_readSlots (h : Readable bs bs) {n : UInt16} (hn : HasCount bs n) (k : Nat) :
    Agrees bs bs (Entry.readSlots (n.toNat - 1) k) (readSlots (n.toNat - 1) k) := by
  induction k using Nat.strongRecOn with
  | ind k ih =>
    cases k with
    | zero => exact agrees_pure []
    | succ k =>
      rw [Entry.readSlots, readSlots, ← bind_assoc, ← bind_assoc]
      refine (agrees_entry h).bind fun e => ?_
      split
      · cases k with
        | zero =>
          have hlt : n.toNat - 1 + 1 < UInt16.size := by
            have := n.toNat_lt
            simp only [UInt16.size]
            omega
          have hindex : (UInt16.ofNat (n.toNat - 1 + 1)).toNat = n.toNat - 1 + 1 :=
            UInt16.toNat_ofNat_of_lt hlt
          rw [add_eq_pure hlt, pure_bind]
          exact fun pos hpos => agreesAt_refuse h ⟨n, hn, .inr (.inl (by omega))⟩
        | succ k => exact (ih k (by omega)).map (e :: .reserved :: ·)
      · exact (ih k (by omega)).map (e :: ·)

/-- The slots that are read fill the pool that stands in the class file. -/
theorem hasPool_of_readSlots {n : UInt16} {es : List Entry} {start stop : Nat}
    (hcount : bs.drop 8 = Written.word n ++ bs.drop start)
    (hes : Entry.readSlots (n.toNat - 1) (n.toNat - 1) (Reader.cursor ⟨bs, start⟩) =
      .ok (es, Reader.cursor ⟨bs, stop⟩)) : HasPool bs n ⟨es.toArray⟩ := by
  obtain ⟨_, ⟨ks, ⟨hslots, hfits⟩, rfl, rfl⟩, hc⟩ :=
    (Entry.reads_readSlots _ _ _ _ _).mp ⟨_, hes, rfl⟩
  refine ⟨ks, bs.drop stop, ?_, hfits, hslots, rfl⟩
  rw [hcount, List.append_assoc]
  exact congrArg _ hc

theorem agreesAt_pool (h : Readable bs bs) (hpos : 8 ≤ bs.length) :
    AgreesAt bs bs 8 Pool.parse pool := by
  refine (agrees_u16 h 8 hpos).bind fun n start hstart hn => ?_
  have hcount : bs.drop 8 = Written.word n ++ bs.drop start := drop_eq_of_reads Parse.reads_u16 hn
  have hhas : HasCount bs n := by
    rw [HasCount, hcount]
    exact List.take_left' (Bytes.length_toBig 2 _)
  refine (agrees_readSlots h hhas _ start hstart).bind fun es stop hstop hes => ?_
  have hpool := hasPool_of_readSlots hcount hes
  exact ((agrees_consult h fun _ _ => Pool.trueOf_of_check hpool).map _) stop hstop

theorem hasPool_of_parse {pool : Pool} {stop : Nat}
    (h : Pool.parse (Reader.cursor ⟨bs, 8⟩) = .ok (pool, Reader.cursor ⟨bs, stop⟩)) :
    ∃ n, HasPool bs n pool := by
  obtain ⟨⟨n, ks⟩, ⟨hslots, hfits, -⟩, rfl, hc⟩ := Pool.reads_parse.yields_iff.mp ⟨_, h, rfl⟩
  exact ⟨n, ks, bs.drop stop, hc, hfits, hslots, rfl⟩

/-! ## Attributes -/

section

variable {n : UInt16} {pool : Pool}

theorem lift_eq_ok {x : Except Error α} {c c' : Cursor} {a : α}
    (h : (liftM x : Parse α) c = .ok (a, c')) : x = .ok a ∧ c' = c := by
  cases x with
  | error e => cases h
  | ok b => cases h; exact ⟨rfl, rfl⟩

theorem eq_of_remaining_eq_ok {left stop : Nat}
    (h : Parse.remaining (Reader.cursor ⟨buffer, pos⟩) =
      .ok (left, Reader.cursor ⟨buffer, stop⟩)) : left = buffer.length - pos ∧ stop = pos := by
  have hrun : Parse.remaining (Reader.cursor ⟨buffer, pos⟩) =
      .ok ((buffer.drop pos).length, Reader.cursor ⟨buffer, pos⟩) := rfl
  rw [hrun, Except.ok.injEq, Prod.mk.injEq, List.length_drop] at h
  exact ⟨h.1.symm, (congrArg Cursor.offset h.2).symm⟩

/-- An attribute that is too long has its length just before what is left, and its name before
that. -/
theorem trueOf_overrun {name : String} {length : UInt32} {i : UInt16} {start mid stop : Nat}
    (hpool : HasPool bs n pool) (hname : pool.utf8 i = .ok name)
    (hindex : buffer.drop start = Written.word i ++ buffer.drop mid)
    (hlength : buffer.drop mid = Bytes.toBig 4 length.toNat ++ buffer.drop stop)
    (hlt : buffer.length - stop < length.toNat) :
    (Error.overrun name length.toNat (buffer.length - stop)).TrueOf bs ⟨buffer, pos⟩ := by
  refine ⟨hlt, length.toNat_lt, n, pool, i, buffer.take start, buffer.drop stop, hpool,
    Pool.utf8_eq_ok_iff.mp hname, ?_, List.length_drop⟩
  rw [List.append_assoc, ← hlength, List.append_assoc, ← hindex, List.take_append_drop]

theorem agrees_head (h : Readable bs buffer) (hpool : HasPool bs n pool) :
    Agrees bs buffer (Attribute.head pool) (head pool) := by
  refine fun pos hpos => (agrees_u16 h pos hpos).bind fun i mid hmid hi =>
    (agrees_u32 h mid hmid).bind fun length stop hstop hlength =>
      (agrees_consult h (fun _ _ => Pool.trueOf_of_utf8 hpool) stop hstop).bind
        fun name place _ hname => ?_
  obtain ⟨htext, hplace⟩ := lift_eq_ok hname
  obtain rfl : place = stop := congrArg Cursor.offset hplace
  refine (agrees_remaining place hstop).bind fun left stop _ hleft => ?_
  obtain ⟨rfl, rfl⟩ := eq_of_remaining_eq_ok hleft
  split
  · next hlt =>
    exact agreesAt_refuse h (trueOf_overrun hpool htext (drop_eq_of_reads Parse.reads_u16 hi)
      (drop_eq_of_reads Parse.reads_u32 hlength) hlt)
  · exact (agrees_bytes h length.toNat).map (Prod.mk name) stop hstop

theorem agrees_codeHead (h : Readable bs buffer) :
    Agrees bs buffer Attribute.codeHead codeHead :=
  (agrees_u16 h).bind fun _ => (agrees_u16 h).bind fun _ => (agrees_u32 h).bind fun length =>
    (agrees_bytes h length.toNat).bind fun _ => (agrees_u16 h).bind fun handlers =>
      Agrees.mul_bind handlers.toNat_lt (Nat.le_refl 8)
        ((agrees_skip h _).bind fun _ => (agrees_u16 h).map _)

theorem agrees_lineTable (h : Readable bs buffer) :
    Agrees bs buffer Attribute.lineTable lineTable :=
  (agrees_u16 h).bind fun count =>
    ((agrees_u16 h).bind fun start => (agrees_u16 h).map (LineEntry.mk start)).times count.toNat

/-- Both results are the same value, or the same error, which tells the truth. -/
inductive Alike (bs : Bytes) (x : Except Error α) (y : Except Halt α) : Prop where
  | ok {a : α} (hx : x = .ok a) (hy : y = .ok a)
  | error {e : Error} {r : Reader} (hx : x = .error e) (hy : y = .error (.refused e r))
      (hr : InUse bs r.buffer) (he : e.TrueOf bs r)

theorem AgreesAt.alike (h : AgreesAt bs buffer pos p q) :
    Alike bs (p.run' (Reader.cursor ⟨buffer, pos⟩)) (q.run' ⟨buffer, pos⟩) := by
  cases h with
  | done _ hp hq => exact .ok (by rw [StateT.run', hp]; rfl) (by rw [StateT.run', hq]; rfl)
  | refused hp hq hr he =>
    exact .error (by rw [StateT.run', hp]; rfl) (by rw [StateT.run', hq]; rfl) hr he

theorem agrees_lift {x : Except Error α} {y : Except Halt α} (h : Alike bs x y) :
    Agrees bs buffer (liftM x) (liftM y) := by
  intro pos hpos
  cases h with
  | ok hx hy => exact .done hpos (by rw [hx]; rfl) (by rw [hy]; rfl)
  | error hx hy hr he => exact .refused (by rw [hx]; rfl) (by rw [hy]; rfl) hr he

/-- A body is interpreted alike, if the attributes in it are read alike. -/
theorem alike_interpret {body : Bytes} (h : Readable bs body)
    (hall : ∀ k, Agrees bs body (Attribute.readAll pool k) (readAll pool k)) (name : String) :
    Alike bs (Attribute.interpret pool name body) (interpret pool name body) := by
  by_cases hcode : name = "Code"
  · rw [hcode, Attribute.interpret_code, interpret_code]
    exact (((agrees_codeHead h).bind fun front => (hall _).map _) 0 (Nat.zero_le _)).alike
  · by_cases hlines : name = "LineNumberTable"
    · rw [hlines, Attribute.interpret_lineTable, interpret_lineTable]
      exact ((agrees_lineTable h).map _ 0 (Nat.zero_le _)).alike
    · rw [Attribute.interpret, interpret, if_neg hcode, if_neg hcode, if_neg hlines, if_neg hlines]
      exact .ok rfl rfl

/-- The body of an attribute is in use, and shorter than what it stands in. -/
theorem inUse_of_head {name : String} {body : Bytes} {stop : Nat} (h : InUse bs buffer)
    (hhead : Attribute.head pool (Reader.cursor ⟨buffer, pos⟩) =
      .ok ((name, body), Reader.cursor ⟨buffer, stop⟩)) :
    InUse bs body ∧ body.length < buffer.length := by
  obtain ⟨_, ⟨i, -, -, rfl⟩, hc⟩ := (Attribute.reads_head pool _ _ _).mp ⟨_, hhead, rfl⟩
  have hbuffer : buffer = buffer.take pos ++
      (Written.word i ++ Bytes.toBig 4 body.length ++ body) ++ buffer.drop stop := by
    rw [List.append_assoc]
    exact (List.take_append_drop pos buffer).symm.trans (congrArg _ hc)
  refine ⟨.body (hbuffer ▸ h), ?_⟩
  have hlen := congrArg List.length hbuffer
  simp [Written.word] at hlen
  omega

theorem agrees_readAll (h : Readable bs buffer) (hpool : HasPool bs n pool) (k : Nat) :
    Agrees bs buffer (Attribute.readAll pool k) (readAll pool k) := by
  induction hlen : buffer.length using Nat.strongRecOn generalizing buffer k with
  | ind len ih =>
    induction k with
    | zero => exact fun pos hpos => .done hpos (Attribute.readAll_zero _) (readAll_zero pool _)
    | succ k hk =>
      rw [Attribute.readAll_succ, readAll_succ]
      refine fun pos hpos => (agrees_head h hpool pos hpos).bind fun r stop hstop hr => ?_
      obtain ⟨huse, hlt⟩ := inUse_of_head h.inUse hr
      have hbody : Readable bs r.2 := ⟨h.fits, huse⟩
      have hone := alike_interpret hbody (fun k => ih _ (hlen ▸ hlt) hbody k rfl) r.1
      exact (agrees_lift hone).bind (fun first => hk.map (first.toList ++ ·)) stop hstop

theorem agrees_table (h : Readable bs buffer) (hpool : HasPool bs n pool) :
    Agrees bs buffer (Attribute.table pool) (table pool) :=
  (agrees_u16 h).bind fun count => agrees_readAll h hpool count.toNat

/-! ## Files -/

theorem agrees_field (h : Readable bs buffer) (hpool : HasPool bs n pool) :
    Agrees bs buffer (readField pool) (field pool) :=
  (agrees_skip h 6).bind fun _ => (agrees_table h hpool).map fun _ => ()

theorem agrees_method (h : Readable bs buffer) (hpool : HasPool bs n pool) :
    Agrees bs buffer (Method.read pool) (method pool) :=
  (agrees_u16 h).bind fun _ => (agrees_u16 h).bind fun _ =>
    (agrees_consult h fun _ _ => Pool.trueOf_of_utf8 hpool).bind fun _ => (agrees_u16 h).bind fun _ =>
      (agrees_consult h fun _ _ => Pool.trueOf_of_utf8 hpool).bind fun _ =>
        (agrees_table h hpool).map _

end

/-- What follows the header words of a class file is read alike. -/
theorem agrees_body (h : Readable bs buffer) {n : UInt16} {pool : Pool} (hpool : HasPool bs n pool)
    (f : UInt16 → List Method → α) : Agrees bs buffer
      (do
        let count ← Parse.u16
        Parse.skip (count.toNat * 2)
        let _ ← Parse.times (readField pool) (← Parse.u16).toNat
        let methods ← Parse.times (Method.read pool) (← Parse.u16).toNat
        let _ ← if (← Parse.remaining) = 0 then pure [] else Attribute.table pool
        return f count methods)
      (do
        let count ← u16
        skip (← mul USize.size count.toNat 2)
        let _ ← times (field pool) (← u16).toNat
        let methods ← times (method pool) (← u16).toNat
        let _ ← if (← remaining) = 0 then pure [] else table pool
        return f count methods) := by
  refine (agrees_u16 h).bind fun count => Agrees.mul_bind count.toNat_lt (by decide) <|
    (agrees_skip h _).bind fun _ => (agrees_u16 h).bind fun fields =>
    ((agrees_field h hpool).times _).bind fun _ => (agrees_u16 h).bind fun methods =>
    ((agrees_method h hpool).times _).bind fun _ => agrees_remaining.bind fun left => ?_
  split
  · exact (agrees_pure []).map _
  · exact (agrees_table h hpool).map _

theorem agreesAt_file (h : Readable bs bs) : AgreesAt bs bs 0 read file := by
  refine (agrees_u32 h 0 (Nat.zero_le _)).bind fun magic stop₄ hstop₄ hmagic => ?_
  have hmagic := drop_eq_of_reads Parse.reads_u32 hmagic
  obtain rfl : stop₄ = 4 := by
    simpa using stop_eq_of_drop (Nat.zero_le _) hstop₄ hmagic
  split
  · next hne =>
    refine agreesAt_refuse h ⟨?_, hne⟩
    rw [show bs = bs.drop 0 from rfl, hmagic]
    exact List.take_left' (Bytes.length_toBig 4 _)
  · refine (agrees_u16 h 4 hstop₄).bind fun minorVersion stop₆ hstop₆ hminor => ?_
    obtain rfl : stop₆ = 6 := by
      simpa using stop_eq_of_drop hstop₄ hstop₆ (drop_eq_of_reads Parse.reads_u16 hminor)
    refine (agrees_u16 h 6 hstop₆).bind fun majorVersion stop₈ hstop₈ hmajor => ?_
    obtain rfl : stop₈ = 8 := by
      simpa using stop_eq_of_drop hstop₆ hstop₈ (drop_eq_of_reads Parse.reads_u16 hmajor)
    refine (agreesAt_pool h hstop₈).bind fun pool stop hstop hpool => ?_
    obtain ⟨n, hpool⟩ := hasPool_of_parse hpool
    exact ((agrees_u16 h).bind fun flags => (agrees_u16 h).bind fun thisClass =>
      (agrees_u16 h).bind fun superClass => agrees_body h hpool _) stop hstop

end Checked

/-- A byte string whose length is a word, as that of every byte string in memory is, is read without
a mishap : machine arithmetic leads to the same class or to the same error as counting does. Where it
leads to an error, a reader is in use that has all the bytes or the body of an attribute, a slice of
them, and what the error says is so. -/
theorem parse_error_trueOf (bs : Bytes) (hbs : bs.length < USize.size) :
    Checked.parse bs ≠ .error .mishap ∧
    (∀ file, ClassFile.parse bs = .ok file → Checked.parse bs = .ok file) ∧
    ∀ e, ClassFile.parse bs = .error e → ∃ reader, Checked.parse bs = .error (.refused e reader) ∧
      InUse bs reader.buffer ∧ reader.buffer <:+: bs ∧ e.TrueOf bs reader := by
  have halike : Checked.Alike bs (ClassFile.parse bs) (Checked.parse bs) :=
    (Checked.agreesAt_file ⟨hbs, .whole⟩).alike
  cases halike with
  | ok hx hy =>
    rw [hx, hy]
    exact ⟨nofun, fun file hfile => congrArg _ (Except.ok.inj hfile), nofun⟩
  | error hx hy hr he =>
    rw [hx, hy]
    refine ⟨nofun, nofun, ?_⟩
    rintro _ ⟨⟩
    exact ⟨_, rfl, hr, hr.isInfix, he⟩

/-- A class whose line table says that it has two rows, and has one. -/
def Written.File.curtailed : Written.File :=
  { sample with
    constants := [.utf8 (Utf8.encode "Main"), .classRef 1, .utf8 (Utf8.encode "run"),
      .utf8 (Utf8.encode "()V"), .utf8 (Utf8.encode "Code"), .utf8 (Utf8.encode "LineNumberTable")]
    methods := [⟨1, 3, 4, [.code 5 0 1 [0xB1] [] [.other 6 [0, 2, 0, 0, 0, 7]] []]⟩] }

/-- The second row is missed at the end of the table, two readers deep. -/
theorem parse_error_trueOf_curtailed :
    ClassFile.parse Written.File.curtailed.encode = .error (.endOfFile 6 2) ∧
      ∃ reader, Checked.parse Written.File.curtailed.encode =
          .error (.refused (.endOfFile 6 2) reader) ∧
        InUse Written.File.curtailed.encode reader.buffer ∧
        6 = reader.position ∧ 6 ≤ reader.buffer.length ∧ reader.buffer.length < 6 + 2 := by
  have hparse : ClassFile.parse Written.File.curtailed.encode = .error (.endOfFile 6 2) := by
    decide +kernel
  have hlen : Written.File.curtailed.encode.length < USize.size :=
    Nat.lt_of_lt_of_le (by decide +kernel) USize.le_size
  obtain ⟨-, -, herror⟩ := parse_error_trueOf _ hlen
  obtain ⟨reader, hreader, huse, -, htrue⟩ := herror _ hparse
  exact ⟨hparse, reader, hreader, huse, htrue⟩

end RemoteDebug.ClassFile
