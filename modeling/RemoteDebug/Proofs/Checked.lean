import RemoteDebug.ClassFile.Basic

/-!
# Reading with machine words

`ClassFile.parse` counts in natural numbers, and its cursor holds the bytes that are left. A machine
has words of a certain size instead, and a buffer with a position in it. There, a sum or a product
may not fit, a difference may fall below zero, and a slice may reach past the end of the buffer.

`Checked` programs read that way, and stop with a `mishap` wherever a machine would go wrong.
Positions and lengths have the size of an address (`USize.size`), whatever that is on the machine.
When a class file is refused, the reader that was in use is reported along with the error : that of
the whole file, or that of the body of some attribute. There is one checked program for each reader
of `Parse`, down to `Checked.parse` for `ClassFile.parse`.

What a checked program reads, the other one reads as well (`Refines`). With this the checked readers
of attributes are seen to end, as the others do. That no mishap ever happens is another matter.
-/

namespace RemoteDebug.ClassFile

/-- A buffer, and a position in it. -/
structure Reader where
  buffer : Bytes
  position : Nat

/-- The place at which a reader stands. -/
def Reader.cursor (r : Reader) : Cursor := ⟨r.buffer.drop r.position, r.position⟩

/-- Why reading stops early. -/
inductive Halt where
  /-- A number does not fit in its word, or an index is out of range. -/
  | mishap
  /-- The class file is refused, while a reader was in use. -/
  | refused (error : Error) (reader : Reader)

/-- Programs that read from a reader, with checked arithmetic. -/
abbrev Checked := StateT Reader (Except Halt)

/-! ## Bodies as programs -/

/-- The body of a code attribute is read as a program on its own. -/
theorem Attribute.interpret_code (pool : Pool) (body : Bytes) : interpret pool "Code" body = (do
    let front ← codeHead
    let inner ← readAll pool front.attributes.toNat
    return some (.code ⟨front.maxStack, front.maxLocals, front.instructions, linesOf inner⟩) :
      Parse (Option Attribute)).run' (Cursor.start body) := by
  rw [interpret, if_pos rfl]
  split
  · next e he =>
    simp only [StateT.run', bind, StateT.bind, he, Except.bind]
    rfl
  · next front c hc =>
    simp only [StateT.run', bind, StateT.bind, hc, Except.bind]
    cases readAll pool front.attributes.toNat c <;> rfl

theorem Attribute.interpret_lineTable (pool : Pool) (body : Bytes) :
    interpret pool "LineNumberTable" body = (do
      return some (.lineNumbers (← lineTable)) : Parse (Option Attribute)).run'
        (Cursor.start body) := by
  rw [interpret, if_neg (by decide), if_pos rfl]
  simp only [StateT.run', bind, StateT.bind, Except.bind]
  cases lineTable (Cursor.start body) <;> rfl

namespace Checked

variable {α β : Type}

/-! ## Arithmetic -/

/-- Go on only if a condition holds. -/
def ensure (p : Prop) [Decidable p] : Checked Unit :=
  if p then pure () else throw .mishap

/-- The sum of two words that have `size` values. -/
def add (size m n : Nat) : Checked Nat := do
  ensure (m + n < size)
  return m + n

/-- The product of two words that have `size` values. -/
def mul (size m n : Nat) : Checked Nat := do
  ensure (m * n < size)
  return m * n

/-- The difference of two words. -/
def sub (m n : Nat) : Checked Nat := do
  ensure (n ≤ m)
  return m - n

/-- The bytes between two positions of a buffer. -/
def slice (buffer : Bytes) (start stop : Nat) : Checked Bytes := do
  ensure (start ≤ stop ∧ stop ≤ buffer.length)
  return (buffer.drop start).take (stop - start)

/-! ## Bytes and words -/

/-- Refuse the class file. -/
def refuse (e : Error) : Checked α := fun r => .error (.refused e r)

/-- Go on with the result of a lookup, or refuse the class file. -/
def consult : Except Error α → Checked α
  | .ok a => pure a
  | .error e => refuse e

/-- The bytes still to be read, counted. -/
def remaining : Checked Nat := do
  let r ← get
  sub r.buffer.length r.position

/-- Take the next `n` bytes. -/
def bytes (n : Nat) : Checked Bytes := do
  let r ← get
  if (← remaining) < n then refuse (.endOfFile r.position n)
  else
    let stop ← add USize.size r.position n
    let taken ← slice r.buffer r.position stop
    set { r with position := stop }
    return taken

/-- Pass over the next `n` bytes. -/
def skip (n : Nat) : Checked Unit := do
  let _ ← bytes n

/-- The next `n` bytes as a number, most significant byte first. -/
def word (n : Nat) : Checked Nat := do
  let bs ← bytes n
  ensure (n ≤ bs.length)
  return Bytes.bigEndian (bs.take n)

/-- The next byte. -/
def u8 : Checked UInt8 := do
  return UInt8.ofNat (← word 1)

/-- The next two bytes. -/
def u16 : Checked UInt16 := do
  return UInt16.ofNat (← word 2)

/-- The next four bytes. -/
def u32 : Checked UInt32 := do
  return UInt32.ofNat (← word 4)

/-- The next eight bytes. -/
def u64 : Checked UInt64 := do
  return UInt64.ofNat (← word 8)

/-- Run a program `n` times and collect its results. -/
def times (q : Checked α) : Nat → Checked (List α)
  | 0 => pure []
  | n + 1 => do
    let a ← q
    let as ← times q n
    return a :: as

/-! ## The pool -/

/-- Read the entry that a tag announces. The tag stands just before the position. -/
def entry (tag : UInt8) : Checked Entry :=
  match tag with
  | 1 => do
    let length ← u16
    return .utf8 (Utf8.decodeLossy (← bytes length.toNat))
  | 3 => return .integer (← u32)
  | 4 => return .float (← u32)
  | 5 => return .long (← u64)
  | 6 => return .double (← u64)
  | 7 => return .classRef (← u16)
  | 8 => return .string (← u16)
  | 9 => return .fieldRef (← u16) (← u16)
  | 10 => return .methodRef (← u16) (← u16)
  | 11 => return .interfaceMethodRef (← u16) (← u16)
  | 12 => return .nameAndType (← u16) (← u16)
  | 15 => return .methodHandle (← u8) (← u16)
  | 16 => return .methodType (← u16)
  | 18 => return .invokeDynamic (← u16) (← u16)
  | _ => do
    let offset ← sub (← get).position 1
    refuse (.unknownTag tag offset)

/-- Read the entries of the last `n` of `slots` slots. The index that a wide entry lacks a slot for
is a word of 16 bits. -/
def readSlots (slots : Nat) : (n : Nat) → Checked (List Entry)
  | 0 => return []
  | n + 1 => do
    let e ← entry (← u8)
    if e.isWide then
      match n with
      | 0 =>
        let index ← add UInt16.size slots 1
        refuse (.badIndex (UInt16.ofNat index))
      | n + 1 => return e :: .reserved :: (← readSlots slots n)
    else
      return e :: (← readSlots slots n)

/-- Read a pool. The number of slots is 0 if the count is. -/
def pool : Checked Pool := do
  let slots := (← u16).toNat - 1
  let pool : Pool := ⟨(← readSlots slots slots).toArray⟩
  consult pool.check
  return pool

/-! ## Attributes -/

/-- Read the name and the body of an attribute. -/
def head (pool : Pool) : Checked (String × Bytes) := do
  let nameIndex ← u16
  let length ← u32
  let name ← consult (pool.utf8 nameIndex)
  let left ← remaining
  if left < length.toNat then
    refuse (.overrun name length.toNat left)
  else
    return (name, ← bytes length.toNat)

/-- Read the head of a code body, without its exception table. -/
def codeHead : Checked Attribute.CodeHead := do
  let maxStack ← u16
  let maxLocals ← u16
  let length ← u32
  let instructions ← bytes length.toNat
  let handlers ← u16
  skip (← mul USize.size handlers.toNat 8)
  let attributes ← u16
  return ⟨maxStack, maxLocals, instructions, attributes⟩

/-- Read a line table. -/
def lineTable : Checked (List LineEntry) := do
  let count ← u16
  times (return ⟨← u16, ← u16⟩) count.toNat

/-- The checked program reads only what the other one reads. -/
def Refines (q : Checked α) (p : Parse α) : Prop :=
  ∀ ⦃r r' : Reader⦄ ⦃a : α⦄, q r = .ok (a, r') → p r.cursor = .ok (a, r'.cursor)

theorem bind_eq_ok {q : Checked α} {k : α → Checked β} {r r' : Reader} {b : β}
    (h : (q >>= k) r = .ok (b, r')) : ∃ a r₁, q r = .ok (a, r₁) ∧ k a r₁ = .ok (b, r') := by
  simp only [bind, StateT.bind, Except.bind] at h
  cases hq : q r with
  | error e => rw [hq] at h; cases h
  | ok s => rw [hq] at h; exact ⟨s.1, s.2, rfl, h⟩

/-- Only what follows a result matters. -/
theorem bind_congr_ok {q : Checked α} {k l : α → Checked β} {r : Reader}
    (h : ∀ a r', q r = .ok (a, r') → k a r' = l a r') : (q >>= k) r = (q >>= l) r := by
  simp only [bind, StateT.bind, Except.bind]
  cases hq : q r with
  | error e => rfl
  | ok s => exact h s.1 s.2 hq

theorem refines_pure (a : α) : Refines (pure a) (pure a) := by
  intro r r' b h
  cases h
  rfl

theorem Refines.bind {q : Checked α} {p : Parse α} {l : α → Checked β} {k : α → Parse β}
    (hq : Refines q p) (hl : ∀ a, Refines (l a) (k a)) : Refines (q >>= l) (p >>= k) := by
  intro r r' b h
  obtain ⟨a, r₁, h₁, h₂⟩ := bind_eq_ok h
  exact Parse.bind_eq_ok_iff.mpr ⟨a, r₁.cursor, hq h₁, hl a h₂⟩

theorem Refines.map {q : Checked α} {p : Parse α} (hq : Refines q p) (f : α → β) :
    Refines (do return f (← q)) (do return f (← p)) :=
  hq.bind fun a => refines_pure (f a)

theorem ensure_eq_pure {p : Prop} [Decidable p] (hp : p) : ensure p = pure () := if_pos hp

theorem ensure_eq_throw {p : Prop} [Decidable p] (hp : ¬p) : ensure p = throw .mishap := if_neg hp

theorem add_eq_pure {size m n : Nat} (h : m + n < size) : add size m n = pure (m + n) := by
  rw [add, ensure_eq_pure h, pure_bind]

theorem mul_eq_pure {size m n : Nat} (h : m * n < size) : mul size m n = pure (m * n) := by
  rw [mul, ensure_eq_pure h, pure_bind]

theorem sub_eq_pure {m n : Nat} (h : n ≤ m) : sub m n = pure (m - n) := by
  rw [sub, ensure_eq_pure h, pure_bind]

theorem slice_eq_pure {buffer : Bytes} {start stop : Nat} (h : start ≤ stop ∧ stop ≤ buffer.length) :
    slice buffer start stop = pure ((buffer.drop start).take (stop - start)) := by
  rw [slice, ensure_eq_pure h, pure_bind]

/-- What `bytes` does, case by case. The slice is in range whenever it is taken. -/
theorem bytes_eq (n : Nat) (r : Reader) : bytes n r =
    if r.position ≤ r.buffer.length then
      if r.buffer.length - r.position < n then .error (.refused (.endOfFile r.position n) r)
      else if r.position + n < USize.size then
        .ok ((r.buffer.drop r.position).take n, ⟨r.buffer, r.position + n⟩)
      else .error .mishap
    else .error .mishap := by
  have hrun : bytes n r = (do
      if (← sub r.buffer.length r.position) < n then refuse (.endOfFile r.position n)
      else
        let stop ← add USize.size r.position n
        let taken ← slice r.buffer r.position stop
        set { r with position := stop }
        return taken : Checked Bytes) r := rfl
  rw [hrun]
  split
  · next hpos =>
    rw [sub_eq_pure hpos, pure_bind]
    split
    · rfl
    · next hn =>
      split
      · next hsum =>
        rw [add_eq_pure hsum, pure_bind, slice_eq_pure (by omega), pure_bind, Nat.add_sub_cancel_left]
        rfl
      · next hsum =>
        rw [add, ensure_eq_throw hsum]
        rfl
  · next hpos =>
    rw [sub, ensure_eq_throw hpos]
    rfl

theorem refines_bytes (n : Nat) : Refines (bytes n) (Parse.bytes n) := by
  intro r r' bs h
  rw [bytes_eq] at h
  split at h
  · split at h
    · cases h
    · next hn =>
      split at h
      · cases h
        refine Parse.bytes_eq_ok_iff.mpr ⟨?_, rfl, ?_⟩
        · simpa [Cursor.remaining, Reader.cursor] using hn
        · simp [Reader.cursor]
      · cases h
  · cases h

/-- The bytes of a number are there when they are looked at. -/
theorem word_eq (n : Nat) : word n = (do return Bytes.bigEndian (← bytes n)) := by
  funext r
  refine bind_congr_ok fun bs r' hbs => ?_
  have hlen : bs.length = n := (Parse.length_bytes (refines_bytes n hbs)).1
  rw [ensure_eq_pure (Nat.le_of_eq hlen.symm), List.take_of_length_le (Nat.le_of_eq hlen)]
  rfl

theorem refines_skip (n : Nat) : Refines (skip n) (Parse.skip n) :=
  (refines_bytes n).map fun _ => ()

theorem refines_word (n : Nat) : Refines (word n) (Parse.word n) := by
  rw [word_eq]
  exact (refines_bytes n).map Bytes.bigEndian

theorem refines_u16 : Refines u16 Parse.u16 := (refines_word 2).map _

theorem refines_u32 : Refines u32 Parse.u32 := (refines_word 4).map _

theorem refines_consult (x : Except Error α) : Refines (consult x) (liftM x) := by
  intro r r' a h
  cases x with
  | error e => cases h
  | ok b => cases h; rfl

theorem refines_refuse (e : Error) : Refines (refuse e : Checked α) (throw e) := by
  intro r r' a h
  cases h

theorem refines_remaining : Refines remaining Parse.remaining := by
  intro r r' n h
  change sub r.buffer.length r.position r = _ at h
  by_cases hpos : r.position ≤ r.buffer.length
  · rw [sub_eq_pure hpos] at h
    cases h
    change Except.ok ((r.buffer.drop r.position).length, r.cursor) = _
    rw [List.length_drop]
  · rw [sub, ensure_eq_throw hpos] at h
    cases h

theorem Refines.mul_bind {size m n : Nat} {l : Nat → Checked α} {p : Parse α}
    (hl : Refines (l (m * n)) p) : Refines (mul size m n >>= l) p := by
  intro r r' a h
  by_cases hmul : m * n < size
  · rw [mul_eq_pure hmul, pure_bind] at h
    exact hl h
  · rw [mul, ensure_eq_throw hmul] at h
    cases h

theorem refines_head (pool : Pool) : Refines (head pool) (Attribute.head pool) := by
  refine refines_u16.bind fun i => refines_u32.bind fun n =>
    (refines_consult (pool.utf8 i)).bind fun name => refines_remaining.bind fun left => ?_
  split
  · exact refines_refuse _
  · exact (refines_bytes n.toNat).map (Prod.mk name)

theorem refines_codeHead : Refines codeHead Attribute.codeHead :=
  refines_u16.bind fun _ => refines_u16.bind fun _ => refines_u32.bind fun length =>
    (refines_bytes length.toNat).bind fun _ => refines_u16.bind fun _ =>
      Refines.mul_bind ((refines_skip _).bind fun _ => refines_u16.map _)

/-! ## Attributes in attributes -/

mutual

/-- Read `n` attributes and keep the interpreted ones. -/
def readAll (pool : Pool) (n : Nat) (r : Reader) : Except Halt (List Attribute × Reader) :=
  match n with
  | 0 => .ok ([], r)
  | n + 1 =>
    match _h : head pool r with
    | .error e => .error e
    | .ok ((name, body), next) => do
      let first ← interpret pool name body
      let (others, r') ← readAll pool n next
      return (first.toList ++ others, r')
termination_by r.cursor.remaining
decreasing_by
  all_goals
    have := Attribute.head_size (refines_head pool _h)
    omega

/-- The meaning of an attribute with a given name and body. The body has a reader of its own. -/
def interpret (pool : Pool) (name : String) (body : Bytes) : Except Halt (Option Attribute) :=
  if name = "Code" then
    match _h : codeHead ⟨body, 0⟩ with
    | .error e => .error e
    | .ok (front, r) => do
      let (inner, _) ← readAll pool front.attributes.toNat r
      return some (.code ⟨front.maxStack, front.maxLocals, front.instructions,
        Attribute.linesOf inner⟩)
  else if name = "LineNumberTable" then do
    let (entries, _) ← lineTable ⟨body, 0⟩
    return some (.lineNumbers entries)
  else
    return none
termination_by body.length
decreasing_by
  have := Attribute.takes_codeHead (refines_codeHead _h)
  simp only [Reader.cursor, Cursor.remaining, List.drop_zero] at this ⊢
  omega

end

/-! ## What the readers of attributes do, as programs -/

theorem interpret_code (pool : Pool) (body : Bytes) : interpret pool "Code" body = (do
    let front ← codeHead
    let inner ← readAll pool front.attributes.toNat
    return some (.code ⟨front.maxStack, front.maxLocals, front.instructions,
      Attribute.linesOf inner⟩) : Checked (Option Attribute)).run' ⟨body, 0⟩ := by
  rw [interpret, if_pos rfl]
  split
  · next e he =>
    simp only [StateT.run', bind, StateT.bind, he, Except.bind]
    rfl
  · next front r hr =>
    simp only [StateT.run', bind, StateT.bind, hr, Except.bind]
    cases readAll pool front.attributes.toNat r <;> rfl

theorem interpret_lineTable (pool : Pool) (body : Bytes) :
    interpret pool "LineNumberTable" body = (do
    return some (.lineNumbers (← lineTable)) : Checked (Option Attribute)).run' ⟨body, 0⟩ := by
  rw [interpret, if_neg (by decide), if_pos rfl]
  simp only [StateT.run', bind, StateT.bind, Except.bind]
  cases lineTable ⟨body, 0⟩ <;> rfl

theorem readAll_zero (pool : Pool) (r : Reader) : readAll pool 0 r = .ok ([], r) := by
  rw [readAll]

theorem readAll_succ (pool : Pool) (k : Nat) : readAll pool (k + 1) = (do
    let r ← head pool
    let first ← interpret pool r.1 r.2
    let others ← readAll pool k
    return first.toList ++ others : Checked (List Attribute)) := by
  funext r
  rw [readAll]
  split
  · next e h => simp only [bind, StateT.bind, h, Except.bind]
  · next name body next h =>
    simp only [bind, StateT.bind, h, Except.bind]
    cases interpret pool name body with
    | error e => rfl
    | ok first => rfl

/-! ## Files -/

/-- Read an attribute table. -/
def table (pool : Pool) : Checked (List Attribute) := do
  let count ← u16
  readAll pool count.toNat

/-- Read a field. -/
def field (pool : Pool) : Checked Unit := do
  skip 6
  let _ ← table pool

/-- Read a method. -/
def method (pool : Pool) : Checked Method := do
  let flags ← u16
  let name ← consult (pool.utf8 (← u16))
  let descriptor ← consult (pool.utf8 (← u16))
  let attributes ← table pool
  let code := attributes.findSome? fun
    | .code code => some code
    | .lineNumbers _ => none
  return ⟨flags, name, descriptor, code⟩

/-- Read a class file. -/
def file : Checked ClassFile := do
  let magic ← u32
  if magic ≠ mark then
    refuse (.badMagic magic)
  else
    let minorVersion ← u16
    let majorVersion ← u16
    let pool ← pool
    let flags ← u16
    let thisClass ← u16
    let superClass ← u16
    let interfaceCount ← u16
    skip (← mul USize.size interfaceCount.toNat 2)
    let _ ← times (field pool) (← u16).toNat
    let methods ← times (method pool) (← u16).toNat
    let _ ← if (← remaining) = 0 then pure [] else table pool
    return {
      minorVersion, majorVersion, pool, flags, thisClass, superClass, interfaceCount
      methods := methods.filter fun m => !m.isNative && !m.isBridge }

/-- The class file that a byte string holds. -/
def parse (bs : Bytes) : Except Halt ClassFile :=
  file.run' ⟨bs, 0⟩

end Checked

end RemoteDebug.ClassFile
