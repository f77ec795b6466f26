import Mathlib.Control.Monad.Basic
import RemoteDebug.Proofs.Checked
import RemoteDebug.Proofs.Truncation

/-!
# Attributes keep to themselves

An attribute takes the bytes that it says it takes, six for its head and as many as the length in
the head says (`Attribute.extent`). Once they are there, they alone decide what the attribute means,
or which error it leads to, and their number alone decides where the next attribute starts
(`Attribute.read_append`). Nothing before or behind them matters. So the attributes of a row are
read as if each stood alone (`Attribute.readAll_eq_alone`), at every depth.

Reading an attribute leads to reading those in its body. `readBy` is one layer of this, with the
reader of the inner attributes left open, and `readWithin` is as many layers as a depth says, with
anything at all below them. Each layer has eighteen bytes less to read than the one around it, so
with layers enough, what is below them is never asked (`Attribute.readWithin_eq_read`).
-/

namespace RemoteDebug.ClassFile

/-- The cursor `n` bytes further on. -/
def Cursor.advance (c : Cursor) (n : Nat) : Cursor := ⟨c.rest.drop n, c.offset + n⟩

theorem Cursor.advance_append (front back : Bytes) (offset : Nat) :
    Cursor.advance ⟨front ++ back, offset⟩ front.length = ⟨back, offset + front.length⟩ := by
  simp [Cursor.advance]

/-- The bytes from the position of a reader on. -/
def Reader.ahead (r : Reader) : Bytes := r.buffer.drop r.position

theorem Reader.advance_cursor (r : Reader) (n : Nat) :
    r.cursor.advance n = Reader.cursor ⟨r.buffer, r.position + n⟩ := by
  simp [Cursor.advance, Reader.cursor]

namespace Parse

variable {α β : Type} {p q : Parse α} {k l : α → Parse β} {c : Cursor}

theorem bind_run : (p >>= k) c = p c >>= fun r => k r.1 r.2 := rfl

theorem bind_of_ok {a : α} {c₁ : Cursor} (h : p c = .ok (a, c₁)) : (p >>= k) c = k a c₁ := by
  rw [bind_run, h]
  rfl

/-- Programs that begin alike are alike, if they go on alike from every result. -/
theorem bind_congr_ok (hp : p c = q c) (hk : ∀ a c₁, q c = .ok (a, c₁) → k a c₁ = l a c₁) :
    (p >>= k) c = (q >>= l) c := by
  rw [bind_run, bind_run, hp]
  cases hq : q c with
  | error e => rfl
  | ok r => exact hk r.1 r.2 hq

/-- A program is run again and again alike, if it is alike wherever that leads. -/
theorem times_congr {bound : Nat} (hq : Takes 0 q) (h : ∀ c, c.remaining ≤ bound → p c = q c)
    (n : Nat) (hc : c.remaining ≤ bound) : times p n c = times q n c := by
  induction n generalizing c with
  | zero => rfl
  | succ n ih =>
    refine bind_congr_ok (h c hc) fun a c₁ ha => bind_congr_ok (ih ?_) fun _ _ _ => rfl
    have := hq ha
    omega

/-! ## Bytes in front -/

theorem bytes_append (front back : Bytes) (offset : Nat) :
    bytes front.length ⟨front ++ back, offset⟩ = .ok (front, ⟨back, offset + front.length⟩) :=
  bytes_eq_ok_iff.mpr ⟨by simp [Cursor.remaining], by simp, by simp⟩

theorem word_append {w n : Nat} (hn : n < Bytes.span w) (back : Bytes) (offset : Nat) :
    word w ⟨Bytes.toBig w n ++ back, offset⟩ = .ok (n, ⟨back, offset + w⟩) := by
  have h := bytes_append (Bytes.toBig w n) back offset
  rw [Bytes.length_toBig] at h
  rw [word, bind_of_ok h, Bytes.bigEndian_toBig hn]
  rfl

theorem u16_append (w : UInt16) (back : Bytes) (offset : Nat) :
    u16 ⟨Written.word w ++ back, offset⟩ = .ok (w, ⟨back, offset + 2⟩) := by
  rw [u16, Written.word, bind_of_ok (word_append w.toNat_lt back offset), UInt16.ofNat_toNat]
  rfl

theorem u32_append {n : Nat} (hn : n < UInt32.size) (back : Bytes) (offset : Nat) :
    u32 ⟨Bytes.toBig 4 n ++ back, offset⟩ = .ok (UInt32.ofNat n, ⟨back, offset + 4⟩) := by
  rw [u32, bind_of_ok (word_append hn back offset)]
  rfl

end Parse

namespace Attribute

open Parse

variable {pool : Pool}

/-! ## The bytes of an attribute -/

/-- The number of bytes that the attribute in front says it has : six for its head, and the length
that stands there. -/
def extent (bs : Bytes) : Nat := 6 + Bytes.bigEndian ((bs.drop 2).take 4)

/-- The bytes of an attribute with a given name index and body. -/
def encoded (i : UInt16) (body : Bytes) : Bytes :=
  Written.word i ++ Bytes.toBig 4 body.length ++ body

theorem length_encoded (i : UInt16) (body : Bytes) :
    (encoded i body).length = 6 + body.length := by
  simp only [encoded, Written.word, List.length_append, Bytes.length_toBig]

theorem extent_encoded (i : UInt16) {body : Bytes} (hbody : body.length < UInt32.size)
    (back : Bytes) : extent (encoded i body ++ back) = (encoded i body).length := by
  have hindex : (Written.word i).length = 2 := Bytes.length_toBig 2 _
  have hlength : ((encoded i body ++ back).drop 2).take 4 = Bytes.toBig 4 body.length := by
    rw [encoded, List.append_assoc, List.append_assoc, List.drop_left' hindex,
      List.take_left' (Bytes.length_toBig 4 _)]
  rw [extent, hlength, Bytes.bigEndian_toBig hbody, length_encoded]

/-- Bytes that are as many as they say start with an attribute. -/
theorem exists_encoded {bs : Bytes} (h : extent bs ≤ bs.length) : ∃ i body back,
    body.length < UInt32.size ∧ bs = encoded i body ++ back := by
  have hsix : 6 ≤ bs.length := Nat.le_trans (Nat.le_add_right 6 _) h
  have hfield : ((bs.drop 2).take 4).length = 4 := by
    simp only [List.length_take, List.length_drop]
    omega
  have hbody : ((bs.drop 6).take (extent bs - 6)).length =
      Bytes.bigEndian ((bs.drop 2).take 4) := by
    simp only [List.length_take, List.length_drop, extent] at h ⊢
    omega
  obtain ⟨i, hi⟩ := exists_u16 (bs.take 2) (List.length_take_of_le (by omega))
  refine ⟨i, (bs.drop 6).take (extent bs - 6), (bs.drop 6).drop (extent bs - 6), ?_, ?_⟩
  · rw [hbody]
    exact Bytes.bigEndian_lt hfield
  · have hsplit : bs = bs.take 2 ++ (bs.drop 2).take 4 ++ bs.drop 6 := by
      have hdrop : bs.drop 6 = (bs.drop 2).drop 4 := by rw [List.drop_drop]
      rw [hdrop, List.append_assoc, List.take_append_drop, List.take_append_drop]
    rw [encoded, Written.word, hi, hbody, Bytes.toBig_bigEndian hfield, List.append_assoc,
      List.take_append_drop, ← hsplit]

/-- The bytes are those of one attribute. -/
def Whole (bs : Bytes) : Prop := extent bs = bs.length

theorem Whole.exists_encoded {bs : Bytes} (h : Whole bs) :
    ∃ i body, body.length < UInt32.size ∧ bs = encoded i body := by
  obtain ⟨i, body, back, hbody, rfl⟩ := Attribute.exists_encoded (Nat.le_of_eq h)
  rw [Whole, extent_encoded i hbody, List.length_append] at h
  obtain rfl : back = [] := List.eq_nil_of_length_eq_zero (by omega)
  exact ⟨i, body, hbody, List.append_nil _⟩

theorem whole_take {bs : Bytes} (h : extent bs ≤ bs.length) : Whole (bs.take (extent bs)) := by
  obtain ⟨i, body, back, hbody, rfl⟩ := Attribute.exists_encoded h
  have hwhole := extent_encoded i hbody []
  rw [List.append_nil] at hwhole
  rw [extent_encoded i hbody, List.take_left]
  exact hwhole

/-! ## An attribute on its own -/

theorem head_encoded (i : UInt16) {body : Bytes} (hbody : body.length < UInt32.size)
    (back : Bytes) (offset : Nat) : head pool ⟨encoded i body ++ back, offset⟩ = do
      let name ← pool.utf8 i
      return ((name, body), ⟨back, offset + (encoded i body).length⟩) := by
  have hw : (UInt32.ofNat body.length).toNat = body.length := UInt32.toNat_ofNat_of_lt hbody
  have hoffset : offset + 2 + 4 + body.length = offset + (encoded i body).length := by
    rw [length_encoded]
    omega
  rw [← hoffset, head, encoded, List.append_assoc, List.append_assoc,
    bind_of_ok (u16_append i _ offset), bind_of_ok (u32_append hbody _ _)]
  cases pool.utf8 i with
  | error e => rfl
  | ok name =>
    -- The length is compared with what is left, which is the body and more.
    change (if (body ++ back).length < (UInt32.ofNat body.length).toNat then _ else _ :
      Parse (String × Bytes)) ⟨body ++ back, offset + 2 + 4⟩ = _
    rw [hw, if_neg (by simp), bind_of_ok (bytes_append body back _)]
    rfl

/-- What an attribute means is decided by its name and its body, and where it ends by its length. -/
theorem read_encoded (i : UInt16) {body : Bytes} (hbody : body.length < UInt32.size)
    (back : Bytes) (offset : Nat) : read pool ⟨encoded i body ++ back, offset⟩ = do
      let name ← pool.utf8 i
      let a ← interpret pool name body
      return (a, ⟨back, offset + (encoded i body).length⟩) := by
  rw [read, bind_run, head_encoded i hbody]
  simp only [bind_assoc, pure_bind]
  rfl

/-- What some bytes mean as an attribute, when there is nothing around them. -/
def alone (pool : Pool) (bs : Bytes) : Except Error (Option Attribute) :=
  (read pool).run' (Cursor.start bs)

theorem alone_encoded (i : UInt16) {body : Bytes} (hbody : body.length < UInt32.size) :
    alone pool (encoded i body) = (do interpret pool (← pool.utf8 i) body) := by
  have h : read pool ⟨encoded i body ++ [], 0⟩ = _ := read_encoded i hbody [] 0
  rw [List.append_nil] at h
  rw [alone, StateT.run', Cursor.start, h]
  simp only [map_bind, map_pure, bind_pure]

/-- An attribute is read as if there were nothing around it, and what follows it is left. -/
theorem read_append {bs : Bytes} (h : Whole bs) (back : Bytes) (offset : Nat) :
    read pool ⟨bs ++ back, offset⟩ = do
      let a ← alone pool bs
      return (a, ⟨back, offset + bs.length⟩) := by
  obtain ⟨i, body, hbody, rfl⟩ := h.exists_encoded
  rw [read_encoded i hbody, alone_encoded i hbody, bind_assoc]

theorem run'_read_append {bs : Bytes} (h : Whole bs) (back : Bytes) (offset : Nat) :
    (read pool).run' ⟨bs ++ back, offset⟩ = alone pool bs := by
  rw [StateT.run', read_append h]
  simp only [map_bind, map_pure, bind_pure]

theorem read_eq_alone {c : Cursor} (h : extent c.rest ≤ c.remaining) : read pool c = do
    let a ← alone pool (c.rest.take (extent c.rest))
    return (a, c.advance (extent c.rest)) := by
  have hlength : (c.rest.take (extent c.rest)).length = extent c.rest := List.length_take_of_le h
  have hread : read pool
      ⟨c.rest.take (extent c.rest) ++ c.rest.drop (extent c.rest), c.offset⟩ = _ :=
    read_append (whole_take h) _ _
  rw [List.take_append_drop, hlength] at hread
  exact hread

/-- The body that is read is the one that the length cuts out. -/
theorem head_eq_ok {c next : Cursor} {name : String} {body : Bytes}
    (h : head pool c = .ok ((name, body), next)) : extent c.rest ≤ c.remaining ∧
      body = (c.rest.take (extent c.rest)).drop 6 := by
  obtain ⟨_, ⟨i, -, hbody, rfl⟩, hc⟩ := (reads_head pool c _ _).mp ⟨next, h, rfl⟩
  change c.rest = encoded i body ++ next.rest at hc
  have hextent : extent c.rest = (encoded i body).length := by rw [hc, extent_encoded i hbody]
  refine ⟨?_, ?_⟩
  · rw [hextent, Cursor.remaining, hc, List.length_append]
    omega
  · rw [hextent, hc, List.take_left, encoded]
    exact (List.drop_left' (by simp [Written.word])).symm

/-- An attribute that is read has all its bytes, and is left behind with them. -/
theorem read_eq_ok {c next : Cursor} {a : Option Attribute} (h : read pool c = .ok (a, next)) :
    extent c.rest ≤ c.remaining ∧ next = c.advance (extent c.rest) := by
  obtain ⟨⟨name, body⟩, c₁, hhead, -⟩ := bind_eq_ok_iff.mp h
  have hle := (head_eq_ok hhead).1
  rw [read_eq_alone hle] at h
  obtain ⟨a', -, h⟩ := except_bind_eq_ok.mp h
  cases h
  exact ⟨hle, rfl⟩

/-! ## Attributes in a row -/

/-- Attributes in a row are read by reading one, again and again. -/
theorem readAll_eq_times (pool : Pool) (n : Nat) : readAll pool n = (do
    return (← times (read pool) n).filterMap id : Parse (List Attribute)) := by
  induction n with
  | zero => exact funext readAll_zero
  | succ n ih =>
    rw [readAll_succ, ih]
    simp only [times, read, bind_assoc, pure_bind]
    funext c
    refine bind_congr_ok rfl fun r c₁ _ => bind_congr_ok rfl fun first c₂ _ =>
      bind_congr_ok rfl fun others c₃ _ => ?_
    cases first <;> rfl

theorem times_read_eq_alone {ws : List Bytes} (hws : ∀ w ∈ ws, Whole w) (back : Bytes)
    (offset : Nat) : times (read pool) ws.length ⟨ws.flatten ++ back, offset⟩ = do
      let as ← ws.mapM (alone pool)
      return (as, ⟨back, offset + ws.flatten.length⟩) := by
  induction ws generalizing offset with
  | nil => rfl
  | cons w ws ih =>
    obtain ⟨hw, hws⟩ := List.forall_mem_cons.mp hws
    rw [List.flatten_cons, List.append_assoc, List.length_cons, times, bind_run, read_append hw,
      List.mapM_cons]
    simp only [bind_assoc, pure_bind]
    -- What the first attribute means has no part in what is left for the others.
    refine bind_congr fun a => ?_
    rw [bind_run, ih hws]
    simp only [bind_assoc, pure_bind, List.length_append, Nat.add_assoc]
    rfl

/-- Attributes in a row are read as if each stood alone. -/
theorem readAll_eq_alone {ws : List Bytes} (hws : ∀ w ∈ ws, Whole w) {c : Cursor} {back : Bytes}
    (hc : c.rest = ws.flatten ++ back) : readAll pool ws.length c = do
      let as ← ws.mapM (alone pool)
      return (as.filterMap id, c.advance ws.flatten.length) := by
  obtain ⟨bs, offset⟩ := c
  obtain rfl : bs = ws.flatten ++ back := hc
  rw [readAll_eq_times, bind_run, times_read_eq_alone hws, Cursor.advance_append]
  simp only [bind_assoc, pure_bind]
  rfl

/-! ## Attributes in attributes -/

/-- The meaning of an attribute, where the attributes in its body are read by `inner`. -/
def interpretBy (inner : Parse (Option Attribute)) (name : String) (body : Bytes) :
    Except Error (Option Attribute) :=
  if name = "Code" then
    (do
      let front ← codeHead
      let attributes ← times inner front.attributes.toNat
      return some (.code ⟨front.maxStack, front.maxLocals, front.instructions,
        linesOf (attributes.filterMap id)⟩) : Parse (Option Attribute)).run' (Cursor.start body)
  else if name = "LineNumberTable" then
    (do return some (.lineNumbers (← lineTable)) : Parse (Option Attribute)).run'
      (Cursor.start body)
  else
    return none

/-- Read one attribute, where those in its body are read by `inner`. -/
def readBy (pool : Pool) (inner : Parse (Option Attribute)) : Parse (Option Attribute) := do
  let (name, body) ← head pool
  interpretBy inner name body

/-- Read one attribute, where those that are `depth` bodies deep are read by `deeper`. -/
def readWithin (pool : Pool) (deeper : Parse (Option Attribute)) :
    (depth : Nat) → Parse (Option Attribute)
  | 0 => deeper
  | depth + 1 => readBy pool (readWithin pool deeper depth)

theorem interpret_eq_interpretBy (name : String) (body : Bytes) :
    interpret pool name body = interpretBy (read pool) name body := by
  unfold interpretBy
  split
  · next hcode =>
    rw [hcode, interpret_code]
    simp only [readAll_eq_times, bind_assoc, pure_bind]
  · next hcode =>
    split
    · next hlines => rw [hlines, interpret_lineTable]
    · next hlines => rw [interpret, if_neg hcode, if_neg hlines]

/-- Attributes in a body are read as the attribute around them is. -/
theorem read_eq_readBy (pool : Pool) : read pool = readBy pool (read pool) := by
  conv => lhs; rw [read]
  simp only [interpret_eq_interpretBy]
  rfl

theorem takes_read : Takes 0 (read pool) := by
  intro c next a h
  obtain ⟨-, rfl⟩ := read_eq_ok h
  simp only [Cursor.remaining, Cursor.advance, List.length_drop]
  omega

/-- The attributes in a body have at least twelve bytes less than the body has. -/
theorem interpretBy_congr {inner : Parse (Option Attribute)} {body : Bytes}
    (h : ∀ c : Cursor, 12 + c.remaining ≤ body.length → inner c = read pool c) (name : String) :
    interpretBy inner name body = interpretBy (read pool) name body := by
  unfold interpretBy
  split
  · rw [StateT.run', StateT.run']
    refine congrArg _ (bind_congr_ok rfl fun front c hfront => bind_congr_ok ?_ fun _ _ _ => rfl)
    have hc : 12 + c.remaining ≤ body.length := takes_codeHead hfront
    exact times_congr takes_read (fun c' hc' => h c' (by omega)) _ (Nat.le_refl _)
  · rfl

theorem readBy_congr {inner : Parse (Option Attribute)} {c : Cursor}
    (h : ∀ c' : Cursor, 18 + c'.remaining ≤ c.remaining → inner c' = read pool c') :
    readBy pool inner c = readBy pool (read pool) c := by
  refine bind_congr_ok rfl fun r next hr => ?_
  have hsize := head_size hr
  have heq : interpretBy inner r.1 r.2 = interpretBy (read pool) r.1 r.2 :=
    interpretBy_congr (fun c' hc' => h c' (by omega)) r.1
  change (interpretBy inner r.1 r.2 >>= _) = interpretBy (read pool) r.1 r.2 >>= _
  rw [heq]

/-- Attributes in attributes come to an end. A layer takes eighteen bytes, six for the head of an
attribute and twelve for that of its code, so enough layers leave nothing for what is below them. -/
theorem readWithin_eq_read (deeper : Parse (Option Attribute)) {depth : Nat} {c : Cursor}
    (h : c.remaining < 18 * depth) : readWithin pool deeper depth c = read pool c := by
  induction depth generalizing c with
  | zero => omega
  | succ depth ih =>
    -- Where the outermost layer runs the others they are `read` already, and a layer around `read`
    -- is `read`.
    rw [readWithin, readBy_congr fun c' hc' => ih (by omega), ← read_eq_readBy]

/-! ## Containment -/

/-- The bytes decide what an attribute means, wherever a reader finds them. -/
theorem run'_read_congr {r r' : Reader} (h : extent r.ahead ≤ r.ahead.length)
    (hr : r'.ahead.take (extent r.ahead) = r.ahead.take (extent r.ahead)) :
    (read pool).run' r'.cursor = (read pool).run' r.cursor := by
  have hwhole := whole_take h
  have hsplit : ∀ s : Reader, s.cursor =
      ⟨s.ahead.take (extent r.ahead) ++ s.ahead.drop (extent r.ahead), s.position⟩ := by
    intro s
    rw [List.take_append_drop]
    rfl
  rw [hsplit r', hsplit r, hr, run'_read_append hwhole, run'_read_append hwhole]

/-- An attribute keeps to its bytes. Its body is shorter than what was left, and attributes in
attributes come to an end : with a layer for every eighteen bytes and one more, it does not matter
what reads below. When an attribute is read, the reader has moved by its six bytes and its length.
Two readers that have the bytes of the attribute ahead find the same attribute or the same error,
whatever else they have. Attributes in a row are read as if each stood alone, so what is in one of
them neither reaches into the others nor moves them. -/
theorem read_contained (pool : Pool) (r : Reader) :
    (∀ name body next, head pool r.cursor = .ok ((name, body), next) →
      body = (r.ahead.take (extent r.ahead)).drop 6 ∧ body.length < r.ahead.length) ∧
    (∀ deeper depth, r.ahead.length < 18 * depth →
      readWithin pool deeper depth r.cursor = read pool r.cursor) ∧
    (∀ a next, read pool r.cursor = .ok (a, next) →
      r.position + extent r.ahead ≤ r.buffer.length ∧
        next = Reader.cursor ⟨r.buffer, r.position + extent r.ahead⟩) ∧
    (extent r.ahead ≤ r.ahead.length → ∀ r' : Reader,
      r'.ahead.take (extent r.ahead) = r.ahead.take (extent r.ahead) →
        (read pool).run' r'.cursor = (read pool).run' r.cursor) ∧
    ∀ (ws : List Bytes) (back : Bytes), (∀ w ∈ ws, Whole w) → r.ahead = ws.flatten ++ back →
      readAll pool ws.length r.cursor = do
        let as ← ws.mapM (alone pool)
        return (as.filterMap id, Reader.cursor ⟨r.buffer, r.position + ws.flatten.length⟩) := by
  refine ⟨fun name body next h => ?_, fun deeper depth h => readWithin_eq_read deeper h,
    fun a next h => ?_, fun h r' hr => run'_read_congr h hr, fun ws back hws h => ?_⟩
  · have hsize : 6 + body.length + next.remaining ≤ r.ahead.length := head_size h
    exact ⟨(head_eq_ok h).2, by omega⟩
  · obtain ⟨hle, rfl⟩ := read_eq_ok h
    refine ⟨?_, r.advance_cursor _⟩
    change extent r.ahead ≤ (r.buffer.drop r.position).length at hle
    have hsix : 6 ≤ extent r.ahead := Nat.le_add_right 6 _
    rw [List.length_drop] at hle
    omega
  · rw [readAll_eq_alone hws h, r.advance_cursor]

/-- Code in code, with a line table behind it. Each code has a byte more than it needs. -/
def nested : Bytes :=
  encoded 1 ([0, 0, 0, 1, 0, 0, 0, 1, 0xB1, 0, 0, 0, 2]
    ++ encoded 1 [0, 0, 0, 0, 0, 0, 0, 0, 0, 0, 0, 0, 7]
    ++ encoded 2 [0, 1, 0, 0, 0, 5] ++ [9])

/-- Three layers are enough for `nested`, which is the same with bytes around it and without. -/
theorem read_contained_nested :
    let pool : Pool := ⟨#[.utf8 "Code", .utf8 "LineNumberTable"]⟩
    let r : Reader := ⟨[1, 2, 3] ++ nested ++ [0xFF], 3⟩
    let code : Attribute := .code ⟨0, 1, [0xB1], some [⟨0, 5⟩]⟩
    let next : Cursor := Reader.cursor ⟨r.buffer, 3 + nested.length⟩
    read pool r.cursor = .ok (some code, next) ∧ extent r.ahead = nested.length ∧
      (∀ deeper, readWithin pool deeper 3 r.cursor = .ok (some code, next)) ∧
      (read pool).run' (Cursor.start nested) = .ok (some code) := by
  intro pool r code next
  have hread : read pool r.cursor = .ok (some code, next) := by decide +kernel
  have hextent : extent r.ahead = nested.length := by decide +kernel
  obtain ⟨-, hends, -, hsame, -⟩ := read_contained pool r
  refine ⟨hread, hextent, fun deeper => ?_, ?_⟩
  · rw [hends deeper 3 (by decide +kernel), hread]
  · have hlocal := hsame (by decide +kernel) ⟨nested, 0⟩ (by decide +kernel)
    refine hlocal.trans ?_
    rw [StateT.run', hread]
    rfl

end Attribute

end RemoteDebug.ClassFile
