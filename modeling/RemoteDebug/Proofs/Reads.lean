import RemoteDebug.ClassFile.Cursor

/-!
# What a reader reads

A written form of a value is a byte string, and a `Form` says which strings are forms of which
values. `Reads p L` ties a reader to a form : `p` succeeds with `a` on a cursor and leaves `rest`
behind exactly when the cursor starts with a form of `a` and `rest` follows it. So the reader takes
every form and nothing else.

Numbers are written by `Bytes.toBig`, which `bigEndian` undoes. There is one lemma for each way of
putting readers together. What stands between two forms in a row is `Form.seq`.
-/

namespace RemoteDebug

/-! ## Numbers, most significant byte first -/

namespace Bytes

/-- The low `w` bytes of `n`, most significant byte first. -/
def toBig : (w : Nat) → Nat → Bytes
  | 0, _ => []
  | w + 1, n => toBig w (n / 256) ++ [UInt8.ofNat n]

@[simp] theorem length_toBig (w n : Nat) : (toBig w n).length = w := by
  induction w generalizing n with
  | zero => rfl
  | succ w ih => simp [toBig, ih]

theorem bigEndian_snoc (bs : Bytes) (b : UInt8) :
    bigEndian (bs ++ [b]) = bigEndian bs * 256 + b.toNat := by
  simp [bigEndian]

theorem bigEndian_toBig {w n : Nat} (hn : n < span w) : bigEndian (toBig w n) = n := by
  induction w generalizing n with
  | zero =>
    have : n = 0 := by simpa [span] using hn
    rw [this]
    rfl
  | succ w ih =>
    rw [span] at hn
    rw [toBig, bigEndian_snoc, ih (by omega), UInt8.toNat_ofNat']
    omega

theorem exists_snoc_of_length {w : Nat} {bs : Bytes} (hbs : bs.length = w + 1) :
    ∃ front b, bs = front ++ [b] ∧ front.length = w := by
  rcases List.eq_nil_or_concat bs with rfl | ⟨front, b, rfl⟩
  · simp at hbs
  · exact ⟨front, b, by simp, by simpa using hbs⟩

theorem bigEndian_lt {w : Nat} {bs : Bytes} (hbs : bs.length = w) : bigEndian bs < span w := by
  induction w generalizing bs with
  | zero =>
    rw [List.eq_nil_of_length_eq_zero hbs]
    decide
  | succ w ih =>
    obtain ⟨front, b, rfl, hfront⟩ := exists_snoc_of_length hbs
    have := ih hfront
    have := b.toNat_lt
    rw [bigEndian_snoc, span]
    omega

theorem toBig_bigEndian {w : Nat} {bs : Bytes} (hbs : bs.length = w) :
    toBig w (bigEndian bs) = bs := by
  induction w generalizing bs with
  | zero => exact (List.eq_nil_of_length_eq_zero hbs).symm
  | succ w ih =>
    obtain ⟨front, b, rfl, hfront⟩ := exists_snoc_of_length hbs
    have hb := b.toNat_lt
    have hdiv : (bigEndian front * 256 + b.toNat) / 256 = bigEndian front := by omega
    have hmod : UInt8.ofNat (bigEndian front * 256 + b.toNat) = b := by
      rw [← UInt8.toNat_inj, UInt8.toNat_ofNat']
      omega
    rw [bigEndian_snoc, toBig, hdiv, hmod, ih hfront]

theorem toBig_one (b : UInt8) : toBig 1 b.toNat = [b] := by
  simp [toBig]

end Bytes

namespace ClassFile

/-- Which byte strings are forms of which values. -/
abbrev Form (α : Type) := α → Bytes → Prop

/-- A form of one kind, followed by a form that depends on its value. -/
def Form.seq {α β : Type} (L : Form α) (M : α → Form β) : Form β := fun b bs =>
  ∃ a front back, L a front ∧ M a b back ∧ bs = front ++ back

namespace Parse

/-- The reader succeeds on `c` with `a` and leaves `rest`. -/
def Yields {α : Type} (p : Parse α) (c : Cursor) (a : α) (rest : Bytes) : Prop :=
  ∃ c', p c = .ok (a, c') ∧ c'.rest = rest

/-- The reader takes the forms of `L` and nothing else. -/
def Reads {α : Type} (p : Parse α) (L : Form α) : Prop :=
  ∀ c a rest, Yields p c a rest ↔ ∃ bs, L a bs ∧ c.rest = bs ++ rest

variable {α β : Type} {p : Parse α} {L M : Form α}

theorem Reads.of_iff (hp : Reads p L) (h : ∀ a bs, L a bs ↔ M a bs) : Reads p M := by
  intro c a rest
  rw [hp c a rest]
  exact exists_congr fun bs => and_congr_left fun _ => h a bs

theorem reads_pure (a : α) : Reads (pure a : Parse α) fun b bs => b = a ∧ bs = [] := by
  intro c b rest
  constructor
  · rintro ⟨c', h, rfl⟩
    cases h
    exact ⟨[], ⟨rfl, rfl⟩, rfl⟩
  · rintro ⟨bs, ⟨rfl, rfl⟩, h⟩
    exact ⟨c, rfl, h⟩

theorem yields_bind {k : α → Parse β} {c : Cursor} {b : β} {rest : Bytes} :
    Yields (p >>= k) c b rest ↔ ∃ a c₁, p c = .ok (a, c₁) ∧ Yields (k a) c₁ b rest := by
  constructor
  · rintro ⟨c', h, rfl⟩
    obtain ⟨a, c₁, h₁, h₂⟩ := bind_eq_ok_iff.mp h
    exact ⟨a, c₁, h₁, c', h₂, rfl⟩
  · rintro ⟨a, c₁, h₁, c', h₂, rfl⟩
    exact ⟨c', bind_eq_ok_iff.mpr ⟨a, c₁, h₁, h₂⟩, rfl⟩

/-- Readers in a row read forms in a row. -/
theorem Reads.bind {k : α → Parse β} {M : α → Form β} (hp : Reads p L)
    (hk : ∀ a, Reads (k a) (M a)) : Reads (p >>= k) (L.seq M) := by
  intro c b rest
  rw [yields_bind]
  constructor
  · rintro ⟨a, c₁, h₁, h₂⟩
    obtain ⟨back, hM, hback⟩ := (hk a c₁ b rest).mp h₂
    obtain ⟨front, hL, hfront⟩ := (hp c a c₁.rest).mp ⟨c₁, h₁, rfl⟩
    refine ⟨front ++ back, ⟨a, front, back, hL, hM, rfl⟩, ?_⟩
    rw [hfront, hback, List.append_assoc]
  · rintro ⟨bs, ⟨a, front, back, hL, hM, rfl⟩, hc⟩
    rw [List.append_assoc] at hc
    obtain ⟨c₁, h₁, hc₁⟩ := (hp c a (back ++ rest)).mpr ⟨front, hL, hc⟩
    exact ⟨a, c₁, h₁, (hk a c₁ b rest).mpr ⟨back, hM, hc₁⟩⟩

theorem Reads.map (hp : Reads p L) (f : α → β) :
    Reads (do return f (← p)) fun b bs => ∃ a, L a bs ∧ b = f a := by
  refine (hp.bind fun a => reads_pure (f a)).of_iff fun b bs => ?_
  constructor
  · rintro ⟨a, front, back, hL, ⟨rfl, rfl⟩, rfl⟩
    exact ⟨a, by simpa using hL, rfl⟩
  · rintro ⟨a, hL, rfl⟩
    exact ⟨a, bs, [], hL, ⟨rfl, rfl⟩, by simp⟩

/-- A computation without effects reads the empty form of its value. -/
theorem reads_lift (e : Except Error α) :
    Reads (liftM e : Parse α) fun a bs => e = .ok a ∧ bs = [] := by
  cases e with
  | error e =>
    intro c a rest
    constructor
    · rintro ⟨c', h, -⟩
      cases h
    · rintro ⟨bs, ⟨h, -⟩, -⟩
      cases h
  | ok a =>
    refine (reads_pure a).of_iff fun b bs => ?_
    rw [Except.ok.injEq, eq_comm]

theorem reads_throw (e : Error) : Reads (throw e : Parse α) fun _ _ => False := by
  intro c a rest
  constructor
  · rintro ⟨c', h, -⟩
    cases h
  · rintro ⟨bs, h, -⟩
    cases h

/-- The reader succeeds with `a` exactly where a form of `a` is all that is left. -/
def Accepts (p : Parse α) (L : Form α) : Prop :=
  ∀ c a, (∃ rest, Yields p c a rest) ↔ L a c.rest

theorem Accepts.of_iff (hp : Accepts p L) (h : ∀ a bs, L a bs ↔ M a bs) : Accepts p M := by
  intro c a
  rw [hp c a]
  exact h a c.rest

theorem accepts_throw (e : Error) : Accepts (throw e : Parse α) fun _ _ => False := by
  intro c a
  refine ⟨?_, nofun⟩
  rintro ⟨rest, c', h, -⟩
  cases h

/-- A reader in front of one that takes all that is left. -/
theorem Reads.bind_accepts {k : α → Parse β} {M : α → Form β} (hp : Reads p L)
    (hk : ∀ a, Accepts (k a) (M a)) : Accepts (p >>= k) (L.seq M) := by
  intro c b
  constructor
  · rintro ⟨rest, h⟩
    obtain ⟨a, c₁, h₁, h₂⟩ := yields_bind.mp h
    obtain ⟨front, hL, hfront⟩ := (hp c a c₁.rest).mp ⟨c₁, h₁, rfl⟩
    exact ⟨a, front, c₁.rest, hL, (hk a c₁ b).mp ⟨rest, h₂⟩, hfront⟩
  · rintro ⟨a, front, back, hL, hM, hc⟩
    obtain ⟨c₁, h₁, rfl⟩ := (hp c a back).mpr ⟨front, hL, hc⟩
    obtain ⟨rest, h₂⟩ := (hk a c₁ b).mpr hM
    exact ⟨rest, yields_bind.mpr ⟨a, c₁, h₁, h₂⟩⟩

/-! ## Bytes and words -/

theorem reads_bytes (n : Nat) : Reads (bytes n) fun a bs => bs = a ∧ a.length = n := by
  intro c a rest
  constructor
  · rintro ⟨c', h, rfl⟩
    obtain ⟨hn, rfl, rfl⟩ := bytes_eq_ok_iff.mp h
    exact ⟨_, ⟨rfl, List.length_take_of_le hn⟩, (List.take_append_drop n c.rest).symm⟩
  · rintro ⟨bs, ⟨rfl, rfl⟩, hc⟩
    refine ⟨⟨c.rest.drop bs.length, c.offset + bs.length⟩, bytes_eq_ok_iff.mpr ⟨?_, ?_, rfl⟩, ?_⟩
    · simp [Cursor.remaining, hc]
    · simp [hc]
    · simp [hc]

theorem reads_skip (n : Nat) : Reads (skip n) fun _ bs => bs.length = n := by
  refine ((reads_bytes n).map fun _ => ()).of_iff fun _ bs => ?_
  constructor
  · rintro ⟨a, ⟨rfl, h⟩, -⟩
    exact h
  · intro h
    exact ⟨bs, ⟨rfl, h⟩, rfl⟩

theorem reads_word (w : Nat) :
    Reads (word w) fun n bs => n < Bytes.span w ∧ bs = Bytes.toBig w n := by
  refine ((reads_bytes w).map Bytes.bigEndian).of_iff fun n bs => ?_
  constructor
  · rintro ⟨a, ⟨rfl, h⟩, rfl⟩
    exact ⟨Bytes.bigEndian_lt h, (Bytes.toBig_bigEndian h).symm⟩
  · rintro ⟨hn, rfl⟩
    exact ⟨_, ⟨rfl, by simp⟩, (Bytes.bigEndian_toBig hn).symm⟩

/-- A word is read back, if it is given by a number of its size. -/
theorem reads_word_as (w : Nat) {ofNat : Nat → α} {toNat : α → Nat}
    (hlt : ∀ a, toNat a < Bytes.span w) (hof : ∀ a, ofNat (toNat a) = a)
    (hto : ∀ n < Bytes.span w, toNat (ofNat n) = n) :
    Reads (do return ofNat (← word w)) fun a bs => bs = Bytes.toBig w (toNat a) := by
  refine ((reads_word w).map ofNat).of_iff fun a bs => ?_
  constructor
  · rintro ⟨n, ⟨hn, rfl⟩, rfl⟩
    rw [hto n hn]
  · rintro rfl
    exact ⟨toNat a, ⟨hlt a, rfl⟩, (hof a).symm⟩

theorem reads_u8 : Reads u8 fun a bs => bs = Bytes.toBig 1 a.toNat :=
  reads_word_as 1 UInt8.toNat_lt (fun _ => UInt8.ofNat_toNat) fun _ => UInt8.toNat_ofNat_of_lt

theorem reads_u16 : Reads u16 fun a bs => bs = Bytes.toBig 2 a.toNat :=
  reads_word_as 2 UInt16.toNat_lt (fun _ => UInt16.ofNat_toNat) fun _ => UInt16.toNat_ofNat_of_lt

theorem reads_u32 : Reads u32 fun a bs => bs = Bytes.toBig 4 a.toNat :=
  reads_word_as 4 UInt32.toNat_lt (fun _ => UInt32.ofNat_toNat) fun _ => UInt32.toNat_ofNat_of_lt

theorem reads_u64 : Reads u64 fun a bs => bs = Bytes.toBig 8 a.toNat :=
  reads_word_as 8 UInt64.toNat_lt (fun _ => UInt64.ofNat_toNat) fun _ => UInt64.toNat_ofNat_of_lt

/-! ## Descriptions -/

end Parse

/-- The forms that descriptions have : `d` describes `value d`, which is written as `encode d`. -/
def Form.of {δ α : Type} (Valid : δ → Prop) (value : δ → α) (encode : δ → Bytes) : Form α :=
  fun a bs => ∃ d, Valid d ∧ a = value d ∧ bs = encode d

namespace Parse

variable {δ : Type} {V : δ → Prop} {value : δ → α} {encode : δ → Bytes}

theorem Reads.yields_iff (hp : Reads p (.of V value encode)) {c : Cursor} {a : α} {rest : Bytes} :
    Yields p c a rest ↔ ∃ d, V d ∧ a = value d ∧ c.rest = encode d ++ rest := by
  rw [hp c a rest]
  constructor
  · rintro ⟨bs, ⟨d, hd, ha, rfl⟩, hc⟩
    exact ⟨d, hd, ha, hc⟩
  · rintro ⟨d, hd, ha, hc⟩
    exact ⟨_, ⟨d, hd, ha, rfl⟩, hc⟩

theorem Reads.of_yields_iff
    (hp : ∀ c a rest, Yields p c a rest ↔ ∃ d, V d ∧ a = value d ∧ c.rest = encode d ++ rest) :
    Reads p (.of V value encode) := by
  intro c a rest
  rw [hp c a rest]
  constructor
  · rintro ⟨d, hd, ha, hc⟩
    exact ⟨_, ⟨d, hd, ha, rfl⟩, hc⟩
  · rintro ⟨bs, ⟨d, hd, ha, rfl⟩, hc⟩
    exact ⟨d, hd, ha, hc⟩

theorem Reads.map_of {q : Parse δ} (hq : Reads q fun d bs => bs = encode d) (f : δ → α) :
    Reads (do return f (← q)) (.of (fun _ => True) f encode) := by
  refine (hq.map f).of_iff fun a bs => ?_
  constructor
  · rintro ⟨d, rfl, rfl⟩
    exact ⟨d, trivial, rfl, rfl⟩
  · rintro ⟨d, -, rfl, rfl⟩
    exact ⟨d, rfl, rfl⟩

/-- What follows a described form may depend on the description. -/
theorem Reads.bind_of {k : α → Parse β} {N : δ → Form β} (hp : Reads p (.of V value encode))
    (hk : ∀ d, V d → Reads (k (value d)) (N d)) :
    Reads (p >>= k) fun b bs => ∃ d back, V d ∧ N d b back ∧ bs = encode d ++ back := by
  intro c b rest
  rw [yields_bind]
  constructor
  · rintro ⟨a, c₁, h₁, h₂⟩
    obtain ⟨d, hd, rfl, hc⟩ := hp.yields_iff.mp ⟨c₁, h₁, rfl⟩
    obtain ⟨back, hN, hback⟩ := (hk d hd c₁ b rest).mp h₂
    refine ⟨_, ⟨d, back, hd, hN, rfl⟩, ?_⟩
    rw [hc, hback, List.append_assoc]
  · rintro ⟨bs, ⟨d, back, hd, hN, rfl⟩, hc⟩
    rw [List.append_assoc] at hc
    obtain ⟨c₁, h₁, hc₁⟩ := hp.yields_iff.mpr ⟨d, hd, rfl, hc⟩
    exact ⟨value d, c₁, h₁, (hk d hd c₁ b rest).mpr ⟨back, hN, hc₁⟩⟩

/-- A reader that is run again and again reads descriptions one after the other. -/
theorem Reads.times (hp : Reads p (.of V value encode)) (n : Nat) :
    Reads (Parse.times p n) (.of (fun ds => ds.length = n ∧ ∀ d ∈ ds, V d) (List.map value)
      (List.flatMap encode)) := by
  induction n with
  | zero =>
    refine (reads_pure []).of_iff fun as bs => ?_
    constructor
    · rintro ⟨rfl, rfl⟩
      exact ⟨[], by simp, rfl, rfl⟩
    · rintro ⟨ds, ⟨hn, -⟩, rfl, rfl⟩
      rw [List.eq_nil_of_length_eq_zero hn]
      exact ⟨rfl, rfl⟩
  | succ n ih =>
    refine (hp.bind fun a => ih.map (a :: ·)).of_iff fun as bs => ?_
    constructor
    · rintro ⟨a, front, back, ⟨d, hd, rfl, rfl⟩, ⟨as', ⟨ds, ⟨rfl, hds⟩, rfl, rfl⟩, rfl⟩, rfl⟩
      exact ⟨d :: ds, ⟨rfl, by simpa using ⟨hd, hds⟩⟩, rfl, rfl⟩
    · rintro ⟨ds, ⟨hn, hds⟩, rfl, rfl⟩
      obtain ⟨d, ds, rfl⟩ := List.exists_cons_of_length_eq_add_one hn
      have hd := List.forall_mem_cons.mp hds
      exact ⟨value d, encode d, _, ⟨d, hd.1, rfl, rfl⟩,
        ⟨_, ⟨ds, ⟨by simpa using hn, hd.2⟩, rfl, rfl⟩, rfl⟩, rfl⟩

/-- A word that says how many descriptions follow. -/
theorem Reads.counted {V : List δ → Prop} {value : List δ → α} {encode : List δ → Bytes}
    {k : Nat → Parse α}
    (hk : ∀ n, Reads (k n) (.of (fun ds => ds.length = n ∧ V ds) value encode)) :
    Reads (do k (← u16).toNat) (.of (fun ds => ds.length < UInt16.size ∧ V ds) value
      fun ds => Bytes.toBig 2 ds.length ++ encode ds) := by
  refine (reads_u16.bind fun w => hk w.toNat).of_iff fun a bs => ?_
  constructor
  · rintro ⟨w, front, back, rfl, ⟨ds, ⟨hn, hV⟩, rfl, rfl⟩, rfl⟩
    have hlt : ds.length < UInt16.size := by
      rw [hn]
      exact w.toNat_lt
    exact ⟨ds, ⟨hlt, hV⟩, rfl, by simp only [hn]⟩
  · rintro ⟨ds, ⟨hn, hV⟩, rfl, rfl⟩
    have hw : (UInt16.ofNat ds.length).toNat = ds.length := UInt16.toNat_ofNat_of_lt hn
    exact ⟨UInt16.ofNat ds.length, _, _, rfl, ⟨ds, ⟨hw.symm, hV⟩, rfl, rfl⟩, by rw [hw]⟩

/-- Counted descriptions in front of a form that takes all that is left. -/
theorem Reads.counted_accepts {V : List δ → Prop} {value : List δ → α} {encode : List δ → Bytes}
    {k : Nat → Parse α} {r : α → Parse β} {M : α → Form β}
    (hk : ∀ n, Reads (k n) (.of (fun ds => ds.length = n ∧ V ds) value encode))
    (hr : ∀ a, Accepts (r a) (M a)) :
    Accepts (do
      let w ← u16
      let a ← k w.toNat
      r a) fun b bs => ∃ ds back, (ds.length < UInt16.size ∧ V ds) ∧ M (value ds) b back ∧
        bs = Bytes.toBig 2 ds.length ++ encode ds ++ back := by
  rw [← bind_assoc]
  refine ((Reads.counted hk).bind_accepts hr).of_iff fun b bs => ?_
  constructor
  · rintro ⟨_, _, back, ⟨ds, hds, rfl, rfl⟩, hM, rfl⟩
    exact ⟨ds, back, hds, hM, rfl⟩
  · rintro ⟨ds, back, hds, hM, rfl⟩
    exact ⟨_, _, back, ⟨ds, hds, rfl, rfl⟩, hM, rfl⟩

/-- Where every string of `k` bytes is a written `δ`, passing over `n * k` bytes passes over `n` of
them. -/
theorem reads_skip_mul {k : Nat} (hlen : ∀ d, (encode d).length = k)
    (hex : ∀ bs : Bytes, bs.length = k → ∃ d, encode d = bs) (n : Nat) :
    Reads (skip (n * k)) (.of (fun ds : List δ => ds.length = n) (fun _ => ())
      (List.flatMap encode)) := by
  refine (reads_skip (n * k)).of_iff fun _ bs => ?_
  constructor
  · intro h
    induction n generalizing bs with
    | zero => exact ⟨[], rfl, rfl, List.eq_nil_of_length_eq_zero (by omega)⟩
    | succ n ih =>
      have htake : (bs.take k).length = k := List.length_take_of_le (by rw [h, Nat.succ_mul]; omega)
      obtain ⟨d, hd⟩ := hex (bs.take k) htake
      obtain ⟨ds, hn, -, hds⟩ := ih (bs.drop k) (by rw [List.length_drop, h, Nat.succ_mul]; omega)
      refine ⟨d :: ds, by simp [hn], rfl, ?_⟩
      rw [List.flatMap_cons, hd, ← hds, List.take_append_drop]
  · rintro ⟨ds, rfl, -, rfl⟩
    induction ds with
    | nil => simp
    | cons d ds ih =>
      rw [List.flatMap_cons, List.length_append, hlen, ih, List.length_cons, Nat.succ_mul]
      omega

/-- Every string of two bytes is a written word. -/
theorem exists_u16 (bs : Bytes) (hbs : bs.length = 2) :
    ∃ w : UInt16, Bytes.toBig 2 w.toNat = bs := by
  have hlt : Bytes.bigEndian bs < UInt16.size := Bytes.bigEndian_lt hbs
  have hw : (UInt16.ofNat (Bytes.bigEndian bs)).toNat = Bytes.bigEndian bs :=
    UInt16.toNat_ofNat_of_lt hlt
  exact ⟨UInt16.ofNat (Bytes.bigEndian bs), by rw [hw, Bytes.toBig_bigEndian hbs]⟩

end Parse

end ClassFile

end RemoteDebug
