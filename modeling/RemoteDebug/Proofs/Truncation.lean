import RemoteDebug.Proofs.Grammar

/-!
# Class files that are cut short

A class file may end after its methods, or anywhere from the end of the attributes of the class on.
Cut at any other place it is refused, and the error says that bytes are missing
(`ClassFile.parse_take`).

A reader is `Steady` if bytes that are added behind change nothing about what it does, unless it
finds that bytes are missing. All the readers of a class file are, but for the last step, which
looks whether anything is left at all. So a steady reader that takes a form finds every proper front
of the form cut short (`Reads.cutShort`), and no cut leads it to another error or to another value.
`EndsAt` carries this through readers in a row, with the two places where a form may end.
-/

namespace RemoteDebug.ClassFile

/-- The error says that bytes are missing. -/
def Error.CutShort : Error → Prop
  | .endOfFile .. | .overrun .. => True
  | _ => False

/-- The cursor with more bytes behind those it has. -/
def Cursor.extend (c : Cursor) (more : Bytes) : Cursor := ⟨c.rest ++ more, c.offset⟩

theorem Cursor.remaining_extend (c : Cursor) (more : Bytes) :
    (c.extend more).remaining = c.remaining + more.length :=
  List.length_append

namespace Parse

variable {α β : Type} {p : Parse α} {k : α → Parse β}

/-! ## Steady readers -/

/-- What the reader does is the same with more bytes behind, unless it finds bytes missing. -/
structure Steady (p : Parse α) : Prop where
  ok : ∀ {c c' : Cursor} {a : α} (more : Bytes), p c = .ok (a, c') →
    p (c.extend more) = .ok (a, c'.extend more)
  error : ∀ {c : Cursor} {e : Error} (more : Bytes), p c = .error e →
    e.CutShort ∨ p (c.extend more) = .error e

theorem bind_eq_error_iff {c : Cursor} {e : Error} : (p >>= k) c = .error e ↔
    p c = .error e ∨ ∃ a c₁, p c = .ok (a, c₁) ∧ k a c₁ = .error e := by
  simp only [bind, StateT.bind, Except.bind]
  cases p c with
  | error e' => simp
  | ok r =>
    constructor
    · intro h
      exact .inr ⟨r.1, r.2, rfl, h⟩
    · rintro (h | ⟨_, _, h, hk⟩)
      · cases h
      · cases h
        exact hk

theorem steady_pure (a : α) : Steady (pure a : Parse α) where
  ok more h := by
    cases h
    rfl
  error more h := by cases h

theorem steady_throw (e : Error) : Steady (throw e : Parse α) where
  ok more h := by cases h
  error more h := .inr (by
    cases h
    rfl)

theorem steady_lift (r : Except Error α) : Steady (liftM r : Parse α) := by
  cases r with
  | error e => exact steady_throw e
  | ok a => exact steady_pure a

theorem Steady.bind (hp : Steady p) (hk : ∀ a, Steady (k a)) : Steady (p >>= k) where
  ok more h := by
    obtain ⟨a, c₁, h₁, h₂⟩ := bind_eq_ok_iff.mp h
    exact bind_eq_ok_iff.mpr ⟨a, _, hp.ok more h₁, (hk a).ok more h₂⟩
  error more h := by
    rcases bind_eq_error_iff.mp h with h₁ | ⟨a, c₁, h₁, h₂⟩
    · exact (hp.error more h₁).imp_right fun h => bind_eq_error_iff.mpr (.inl h)
    · exact ((hk a).error more h₂).imp_right fun h =>
        bind_eq_error_iff.mpr (.inr ⟨a, _, hp.ok more h₁, h⟩)

theorem Steady.map (hp : Steady p) (f : α → β) : Steady (do return f (← p)) :=
  hp.bind fun a => steady_pure (f a)

theorem steady_bytes (n : Nat) : Steady (bytes n) where
  ok {c c' bs} more h := by
    obtain ⟨hn, rfl, rfl⟩ := bytes_eq_ok_iff.mp h
    rw [Cursor.remaining] at hn
    refine bytes_eq_ok_iff.mpr ⟨?_, ?_, ?_⟩
    · simp only [Cursor.extend, Cursor.remaining, List.length_append]
      omega
    · simp only [Cursor.extend, List.take_append_of_le_length hn]
    · simp only [Cursor.extend, List.drop_append_of_le_length hn]
  error {c e} more h := by
    left
    simp only [bytes] at h
    split at h
    · cases h
      trivial
    · cases h

theorem steady_skip (n : Nat) : Steady (skip n) := (steady_bytes n).map fun _ => ()

theorem steady_word (n : Nat) : Steady (word n) := (steady_bytes n).map _

theorem steady_u8 : Steady u8 := (steady_word 1).map _

theorem steady_u16 : Steady u16 := (steady_word 2).map _

theorem steady_u32 : Steady u32 := (steady_word 4).map _

theorem steady_u64 : Steady u64 := (steady_word 8).map _

theorem Steady.times (hp : Steady p) (n : Nat) : Steady (Parse.times p n) := by
  induction n with
  | zero => exact steady_pure []
  | succ n ih => exact hp.bind fun a => ih.map (a :: ·)

/-- A steady reader takes no proper front of a form. -/
theorem Reads.cutShort {L : Form α} (hp : Reads p L) (hs : Steady p) {a : α} {bs : Bytes}
    (ha : L a bs) {n : Nat} (hn : n < bs.length) (offset : Nat) :
    ∃ e, p ⟨bs.take n, offset⟩ = .error e ∧ e.CutShort := by
  obtain ⟨c', h, hc'⟩ := (hp ⟨bs, offset⟩ a []).mpr ⟨bs, ha, by simp⟩
  have hwhole : Cursor.extend ⟨bs.take n, offset⟩ (bs.drop n) = ⟨bs, offset⟩ := by
    simp [Cursor.extend]
  cases hcut : p ⟨bs.take n, offset⟩ with
  | error e =>
    rcases hs.error (bs.drop n) hcut with he | he
    · exact ⟨e, rfl, he⟩
    · rw [hwhole, h] at he
      cases he
  | ok r =>
    -- With the rest put back, the reader would leave that rest behind. It leaves nothing.
    have hr := hs.ok (bs.drop n) hcut
    rw [hwhole, h] at hr
    cases hr
    have hdrop : (bs.drop n).length = 0 := by
      have hlen := congrArg List.length hc'
      simp only [Cursor.extend, List.length_append, List.length_nil] at hlen
      omega
    rw [List.length_drop] at hdrop
    omega

/-! ## Where bytes may end -/

/-- The reader gets `a` from the first `k` of the bytes if `k` is `m` or not less than `n`, and
finds them cut short otherwise. -/
structure EndsAt (p : Parse α) (bs : Bytes) (a : α) (m n : Nat) : Prop where
  le : m ≤ n
  le_length : n ≤ bs.length
  whole : ∀ k offset, k = m ∨ n ≤ k → ∃ c, p ⟨bs.take k, offset⟩ = .ok (a, c)
  cut : ∀ k offset, ¬(k = m ∨ n ≤ k) → ∃ e, p ⟨bs.take k, offset⟩ = .error e ∧ e.CutShort

variable {δ : Type} {a : α} {b : β} {front back : Bytes} {m n : Nat}

theorem EndsAt.of_eq {bs bs' : Bytes} {a' : α} {m' n' : Nat} (h : EndsAt p bs a m n)
    (hbs : bs' = bs) (ha : a' = a) (hm : m' = m) (hn : n' = n) : EndsAt p bs' a' m' n' := by
  rw [hbs, ha, hm, hn]
  exact h

/-- What stands in front moves the ends. -/
theorem EndsAt.bind {L : Form α} (hp : Reads p L) (hs : Steady p) (ha : L a front)
    (hk : EndsAt (k a) back b m n) :
    EndsAt (p >>= k) (front ++ back) b (front.length + m) (front.length + n) := by
  have htake : ∀ j, (front ++ back).take j = front.take j ++ back.take (j - front.length) :=
    fun j => List.take_append
  have hfront : ∀ j offset, front.length ≤ j → ∃ c,
      p ⟨(front ++ back).take j, offset⟩ = .ok (a, c) ∧ c.rest = back.take (j - front.length) := by
    intro j offset hj
    refine (hp _ _ _).mpr ⟨front, ha, ?_⟩
    rw [htake, List.take_of_length_le hj]
  have hle := hk.le
  have hlen := hk.le_length
  refine ⟨by omega, by rw [List.length_append]; omega, fun j offset hj => ?_,
    fun j offset hj => ?_⟩
  · obtain ⟨⟨_, o⟩, h, rfl⟩ := hfront j offset (by omega)
    obtain ⟨c', h'⟩ := hk.whole (j - front.length) o (by omega)
    exact ⟨c', bind_eq_ok_iff.mpr ⟨a, _, h, h'⟩⟩
  · by_cases hlt : j < front.length
    · obtain ⟨e, h, he⟩ := hp.cutShort hs ha hlt offset
      refine ⟨e, bind_eq_error_iff.mpr (.inl ?_), he⟩
      rw [htake, Nat.sub_eq_zero_of_le (Nat.le_of_lt hlt), List.take_zero, List.append_nil]
      exact h
    · obtain ⟨⟨_, o⟩, h, rfl⟩ := hfront j offset (by omega)
      obtain ⟨e, h', he⟩ := hk.cut (j - front.length) o (by omega)
      exact ⟨e, bind_eq_error_iff.mpr (.inr ⟨a, _, h, h'⟩), he⟩

theorem EndsAt.bind_u16 {k : UInt16 → Parse β} (w : UInt16) (hk : EndsAt (k w) back b m n) :
    EndsAt (u16 >>= k) (Bytes.toBig 2 w.toNat ++ back) b (2 + m) (2 + n) := by
  have h := EndsAt.bind reads_u16 steady_u16 rfl hk
  rwa [Bytes.length_toBig] at h

theorem endsAt_pure (a : α) (bs : Bytes) : EndsAt (pure a) bs a 0 0 where
  le := Nat.le_refl 0
  le_length := Nat.zero_le _
  whole _ _ _ := ⟨_, rfl⟩
  cut k _ hk := absurd (.inr (Nat.zero_le k)) hk

theorem EndsAt.counted {V : List δ → Prop} {value : List δ → α} {encode : List δ → Bytes}
    {q : Nat → Parse α}
    (hq : ∀ n, Reads (q n) (.of (fun ds => ds.length = n ∧ V ds) value encode))
    (hs : ∀ n, Steady (q n)) {ds : List δ} (hds : ds.length < UInt16.size ∧ V ds)
    (hk : EndsAt (k (value ds)) back b m n) :
    EndsAt (do
      let w ← u16
      let a ← q w.toNat
      k a) (Bytes.toBig 2 ds.length ++ encode ds ++ back) b
        ((Bytes.toBig 2 ds.length ++ encode ds).length + m)
        ((Bytes.toBig 2 ds.length ++ encode ds).length + n) := by
  rw [← bind_assoc]
  exact EndsAt.bind (Reads.counted hq) (steady_u16.bind fun w => hs w.toNat) ⟨ds, hds, rfl, rfl⟩ hk

end Parse

open Parse
open Written (Member Body)

/-! ## The readers of a class file are steady -/

namespace Entry

theorem steady_two (f : UInt16 → UInt16 → Entry) : Steady (do return f (← u16) (← u16)) :=
  steady_u16.bind fun v => steady_u16.map (f v)

theorem steady_read (tag : UInt8) : Steady (read tag) := by
  unfold read
  split
  · exact steady_u16.bind fun length => (steady_bytes length.toNat).map _
  · exact steady_u32.map integer
  · exact steady_u32.map float
  · exact steady_u64.map long
  · exact steady_u64.map double
  · exact steady_u16.map classRef
  · exact steady_u16.map string
  · exact steady_two fieldRef
  · exact steady_two methodRef
  · exact steady_two interfaceMethodRef
  · exact steady_two nameAndType
  · exact steady_u8.bind fun kind => steady_u16.map (methodHandle kind)
  · exact steady_u16.map methodType
  · exact steady_two invokeDynamic
  · constructor
    · intro c c' a more h
      cases h
    · intro c e more h
      exact .inr h

theorem steady_readSlots (slots n : Nat) : Steady (readSlots slots n) := by
  induction n using Nat.strongRecOn with
  | ind n ih =>
    cases n with
    | zero => exact steady_pure []
    | succ n =>
      rw [readSlots]
      refine steady_u8.bind fun tag => (steady_read tag).bind fun e => ?_
      split
      · cases n with
        | zero => exact steady_throw _
        | succ n => exact (ih n (by omega)).map (e :: .reserved :: ·)
      · exact (ih n (by omega)).map (e :: ·)

end Entry

theorem Pool.steady_parse : Steady Pool.parse :=
  steady_u16.bind fun w => (Entry.steady_readSlots (w.toNat - 1) (w.toNat - 1)).bind fun es =>
    (steady_lift (Pool.check ⟨es.toArray⟩)).map fun _ => (⟨es.toArray⟩ : Pool)

namespace Attribute

/-- A body that is not all there is an overrun. -/
theorem steady_checked (name : String) (n : Nat) : Steady (do
    let left ← remaining
    if left < n then throw (.overrun name n left) else return (name, ← bytes n)) := by
  have hrun : ∀ c : Cursor, (do
      let left ← remaining
      if left < n then throw (.overrun name n left) else return (name, ← bytes n) :
        Parse (String × Bytes)) c =
      if c.remaining < n then .error (.overrun name n c.remaining)
      else (do return (name, ← bytes n) : Parse (String × Bytes)) c := by
    intro c
    change (if c.remaining < n then _ else _ : Parse (String × Bytes)) c = _
    split
    · rfl
    · rfl
  have hgrows : ∀ {c : Cursor} (more : Bytes), ¬c.remaining < n →
      ¬(c.extend more).remaining < n := by
    intro c more hn
    rw [Cursor.remaining_extend]
    omega
  have hbytes := (steady_bytes n).map (Prod.mk name)
  constructor
  · intro c c' a more h
    rw [hrun] at h ⊢
    split at h
    · cases h
    · next hn =>
      rw [if_neg (hgrows more hn)]
      exact hbytes.ok more h
  · intro c e more h
    rw [hrun] at h ⊢
    split at h
    · cases h
      exact .inl trivial
    · next hn =>
      rw [if_neg (hgrows more hn)]
      exact hbytes.error more h

theorem steady_head (pool : Pool) : Steady (head pool) :=
  steady_u16.bind fun i => steady_u32.bind fun n => (steady_lift (pool.utf8 i)).bind fun name =>
    steady_checked name n.toNat

theorem readAll_succ (pool : Pool) (n : Nat) : readAll pool (n + 1) = (do
    let r ← head pool
    let first ← interpret pool r.1 r.2
    let others ← readAll pool n
    return first.toList ++ others : Parse (List Attribute)) := by
  funext c
  rw [readAll]
  split
  · next e h =>
    symm
    exact bind_eq_error_iff.mpr (.inl h)
  · next name body next h =>
    simp only [bind, StateT.bind, h, Except.bind]
    cases interpret pool name body with
    | error e => rfl
    | ok first => rfl

theorem steady_readAll (pool : Pool) (n : Nat) : Steady (readAll pool n) := by
  induction n with
  | zero =>
    rw [show readAll pool 0 = (pure [] : Parse (List Attribute)) from funext readAll_zero]
    exact steady_pure []
  | succ n ih =>
    rw [readAll_succ]
    exact (steady_head pool).bind fun r => (steady_lift (interpret pool r.1 r.2)).bind fun first =>
      ih.map (first.toList ++ ·)

theorem steady_table (pool : Pool) : Steady (table pool) :=
  steady_u16.bind fun count => steady_readAll pool count.toNat

end Attribute

theorem steady_readField (pool : Pool) : Steady (readField pool) :=
  (steady_skip 6).bind fun _ => (Attribute.steady_table pool).map fun _ => ()

theorem steady_method (pool : Pool) : Steady (Method.read pool) :=
  steady_u16.bind fun _ => steady_u16.bind fun i => (steady_lift (pool.utf8 i)).bind fun _ =>
    steady_u16.bind fun j => (steady_lift (pool.utf8 j)).bind fun _ =>
      (Attribute.steady_table pool).map _

/-! ## Files -/

/-- The last step of `read` : the attributes of the class, unless nothing is left. -/
def readEnding {α : Type} (pool : Pool) (a : α) : Parse α := do
  let _ ← if (← remaining) = 0 then pure [] else Attribute.table pool
  return a

theorem readEnding_of_ne_nil {α : Type} (pool : Pool) (a : α) {c : Cursor} (hc : c.rest ≠ []) :
    readEnding pool a c = (do
      let _ ← Attribute.table pool
      return a : Parse α) c := by
  change (do
    let _ ← if c.remaining = 0 then pure [] else Attribute.table pool
    return a : Parse α) c = _
  rw [if_neg (by simpa [Cursor.remaining] using hc)]

theorem endsAt_ending {α : Type} (pool : Pool) (a : α)
    {ending : Option (List Written.Attribute × Bytes)}
    (hvalid : ∀ attributes trailing, ending = some (attributes, trailing) →
      attributes.length < UInt16.size ∧ Written.AllValid pool attributes) :
    EndsAt (readEnding pool a) (Written.encodeEnding ending) a 0
      (Written.encodeEnding (ending.map fun e => (e.1, []))).length := by
  have hnil : ∀ offset, readEnding pool a ⟨[], offset⟩ = .ok (a, ⟨[], offset⟩) := fun _ => rfl
  cases ending with
  | none =>
    refine ⟨Nat.le_refl 0, Nat.le_refl 0, fun k offset _ => ⟨⟨[], offset⟩, ?_⟩, fun k _ hk => ?_⟩
    · rw [Written.encodeEnding, List.take_nil]
      exact hnil offset
    · exact absurd (.inr (Nat.zero_le k)) hk
  | some e =>
    obtain ⟨attributes, trailing⟩ := e
    have htable : EndsAt (do
        let _ ← Attribute.table pool
        return a) (Written.encodeTable attributes ++ trailing) a _ _ :=
      EndsAt.bind (Attribute.reads_table pool) (Attribute.steady_table pool)
        ⟨attributes, hvalid attributes trailing rfl, rfl, rfl⟩ (endsAt_pure a trailing)
    -- The count alone takes two bytes, so the table is not taken for an end before it.
    have hlen : 2 ≤ (Written.encodeTable attributes).length := by
      simp [Written.encodeTable]
    have hne : ∀ k, k ≠ 0 → (Written.encodeTable attributes ++ trailing).take k ≠ [] := by
      intro k hk h
      have := congrArg List.length h
      simp only [List.length_take, List.length_append, List.length_nil] at this
      omega
    have hend : (Written.encodeEnding (some (attributes, []))).length =
        (Written.encodeTable attributes).length := by
      simp [Written.encodeEnding]
    rw [Option.map_some, hend]
    refine ⟨Nat.zero_le _, htable.le_length, fun k offset hk => ?_, fun k offset hk => ?_⟩
    · by_cases hzero : k = 0
      · rw [hzero, List.take_zero]
        exact ⟨_, hnil offset⟩
      · rw [Written.encodeEnding, readEnding_of_ne_nil pool a (hne k hzero)]
        exact htable.whole k offset (by omega)
    · rw [Written.encodeEnding, readEnding_of_ne_nil pool a (hne k (by omega))]
      exact htable.cut k offset (by omega)

theorem endsAt_body {α : Type} (pool : Pool) (f : UInt16 → List Method → α) {d : Body}
    (hd : d.Valid pool) :
    EndsAt (do
      let count ← u16
      skip (count.toNat * 2)
      let _ ← times (readField pool) (← u16).toNat
      let methods ← times (Method.read pool) (← u16).toNat
      let _ ← if (← remaining) = 0 then pure [] else Attribute.table pool
      return f count methods) d.encode
        (f (UInt16.ofNat d.interfaces.length) (d.methods.map (Member.method pool)))
        ({ d with ending := none } : Body).encode.length
        ({ d with ending := d.ending.map fun e => (e.1, []) } : Body).encode.length := by
  have hcount : (UInt16.ofNat d.interfaces.length).toNat = d.interfaces.length :=
    UInt16.toNat_ofNat_of_lt hd.interfaces
  refine EndsAt.of_eq (EndsAt.bind_u16 _ <|
    EndsAt.bind (reads_interfaces _) (steady_skip _) ⟨d.interfaces, hcount.symm, rfl, rfl⟩ <|
    EndsAt.counted (reads_readField pool).times (steady_readField pool).times hd.fields <|
    EndsAt.counted (reads_method pool).times (steady_method pool).times hd.methods <|
      endsAt_ending pool _ hd.ending) ?_ rfl ?_ ?_
  · simp [Body.encode, hcount]
  · simp [Body.encode, Written.encodeEnding]
    omega
  · simp [Body.encode]
    omega

/-- Where the methods of a class file end. -/
def Written.File.methodsEnd (d : Written.File) : Nat :=
  ({ d with ending := none } : Written.File).encode.length

/-- Where the attributes of the class end. Where there are none, the file ends with its methods. -/
def Written.File.attributesEnd (d : Written.File) : Nat :=
  ({ d with ending := d.ending.map fun e => (e.1, []) } : Written.File).encode.length

theorem endsAt_read {d : Written.File} (hd : d.Valid) :
    EndsAt read d.encode d.model d.methodsEnd d.attributesEnd := by
  refine EndsAt.of_eq (EndsAt.bind reads_u32 steady_u32 (a := mark) rfl (?_ : EndsAt _ d.content
    d.model ({ d with ending := none } : Written.File).content.length
    ({ d with ending := d.ending.map fun e => (e.1, []) } : Written.File).content.length))
    ?_ rfl ?_ ?_
  · rw [if_neg (not_not_intro rfl)]
    refine EndsAt.of_eq (EndsAt.bind_u16 d.minorVersion <| EndsAt.bind_u16 d.majorVersion <|
      EndsAt.bind Pool.reads_parse Pool.steady_parse
        ⟨(d.poolCount, d.constants), ⟨hd.slots, hd.fits, hd.linked⟩, rfl, rfl⟩ <|
      EndsAt.bind_u16 d.flags <| EndsAt.bind_u16 d.thisClass <| EndsAt.bind_u16 d.superClass <|
        endsAt_body d.pool _ hd.body) ?_ ?_ ?_ ?_
    · simp [Written.File.content, Written.word]
    · simp [Written.File.model, Written.File.pool, filter_methods]
    · simp [Written.File.content, Written.word]
      omega
    · simp [Written.File.content, Written.word]
      omega
  · rw [toBig_mark]
    rfl
  · rw [toBig_mark, Written.File.methodsEnd, Written.File.encode, List.length_append]
  · rw [toBig_mark, Written.File.attributesEnd, Written.File.encode, List.length_append]

theorem parse_eq_ok {bs : Bytes} {file : ClassFile} {c : Cursor}
    (h : read (Cursor.start bs) = .ok (file, c)) : ClassFile.parse bs = .ok file := by
  rw [ClassFile.parse, StateT.run', h]
  rfl

theorem parse_eq_error {bs : Bytes} {e : Error} (h : read (Cursor.start bs) = .error e) :
    ClassFile.parse bs = .error e := by
  rw [ClassFile.parse, StateT.run', h]
  rfl

/-- A class file that is accepted may end with its methods, and from the end of the attributes of
the class on. Cut there it is the same class, and cut anywhere else it is refused because bytes are
missing. -/
theorem parse_take {bs : Bytes} {file : ClassFile} (h : ClassFile.parse bs = .ok file) :
    ∃ d : Written.File, d.Valid ∧ d.encode = bs ∧ d.model = file ∧
      d.methodsEnd ≤ d.attributesEnd ∧ d.attributesEnd ≤ bs.length ∧ ∀ k ≤ bs.length,
        (k = d.methodsEnd ∨ d.attributesEnd ≤ k → ClassFile.parse (bs.take k) = .ok file) ∧
        (¬(k = d.methodsEnd ∨ d.attributesEnd ≤ k) →
          ∃ e, ClassFile.parse (bs.take k) = .error e ∧ e.CutShort) := by
  obtain ⟨c, hread⟩ : ∃ c, read (Cursor.start bs) = .ok (file, c) := by
    cases hread : read (Cursor.start bs) with
    | error e =>
      rw [parse_eq_error hread] at h
      cases h
    | ok r =>
      rw [parse_eq_ok hread] at h
      cases h
      exact ⟨r.2, rfl⟩
  obtain ⟨d, hd, rfl, rfl⟩ := (accepts_read _ _).mp ⟨c.rest, c, hread, rfl⟩
  have hends := endsAt_read hd
  refine ⟨d, hd, rfl, rfl, hends.le, hends.le_length, fun k _ => ⟨fun hk => ?_, fun hk => ?_⟩⟩
  · obtain ⟨c, h⟩ := hends.whole k 0 hk
    exact parse_eq_ok h
  · obtain ⟨e, h, he⟩ := hends.cut k 0 hk
    exact ⟨e, parse_eq_error h, he⟩

/-- A class with one method, an attribute of its own, and a byte that nothing reads. -/
def Written.File.sample : Written.File where
  minorVersion := 0
  majorVersion := 52
  poolCount := 7
  constants := [.utf8 (Utf8.encode "Main"), .classRef 1, .utf8 (Utf8.encode "run"),
    .utf8 (Utf8.encode "()V"), .utf8 (Utf8.encode "Code"), .utf8 (Utf8.encode "SourceFile")]
  flags := 0x21
  thisClass := 2
  superClass := 0
  interfaces := []
  fields := []
  methods := [⟨1, 3, 4, [.code 5 0 1 [0xB1] [] [] []]⟩]
  ending := some ([.other 6 [0, 1]], [0xFF])

theorem Written.File.sample_valid : sample.Valid := by
  have hcode : sample.pool.text? 5 = some "Code" := by decide
  have hother : sample.pool.text? 6 = some "SourceFile" := by decide
  have hmethod : AllValid sample.pool [.code 5 0 1 [0xB1] [] [] []] := by
    simp [AllValid, Attribute.WellFormed, Attribute.body, encodeAll, hcode, word, UInt32.size]
  have hclass : AllValid sample.pool [.other 6 [0, 1]] := by
    simp [AllValid, Attribute.WellFormed, Attribute.body, hother, UInt32.size]
  refine ⟨by decide, ?_, ?_, ⟨by decide, ⟨by decide, ?_⟩, ⟨by decide, ?_⟩, ?_⟩⟩
  · simp only [sample, List.forall_mem_cons, List.not_mem_nil, false_implies, implies_true,
      Constant.Fits]
    decide
  · simp only [sample, List.forall_mem_cons, List.not_mem_nil, false_implies, implies_true,
      Constant.Linked]
    decide
  · exact fun m hm => absurd hm List.not_mem_nil
  · intro m hm
    obtain rfl := List.mem_singleton.mp hm
    exact ⟨⟨by decide, by decide⟩, by decide, hmethod⟩
  · rintro _ _ ⟨⟩
    exact ⟨by decide, hclass⟩

theorem parse_take_sample :
    ClassFile.parse Written.File.sample.encode = .ok Written.File.sample.model ∧
      ∃ d : Written.File, d.encode = Written.File.sample.encode ∧
        ClassFile.parse (Written.File.sample.encode.take d.methodsEnd) =
          .ok Written.File.sample.model := by
  obtain ⟨_, c, hread, -⟩ := (accepts_read (Cursor.start Written.File.sample.encode) _).mpr
    ⟨_, Written.File.sample_valid, rfl, rfl⟩
  have hparse := parse_eq_ok hread
  obtain ⟨d, -, hencode, -, hle, hlen, hcut⟩ := parse_take hparse
  exact ⟨hparse, d, hencode, (hcut _ (Nat.le_trans hle hlen)).1 (.inl rfl)⟩

end RemoteDebug.ClassFile
