import RemoteDebug.Bytes.Endian
import RemoteDebug.ClassFile.Error

/-!
# A cursor over the bytes of a class file

A `Cursor` is what is left of a byte string and how many bytes went before it. Reads are programs
of `Parse`, which carry the cursor along and stop at the first error. Every read comes down to
`bytes`, which takes exactly `n` bytes or fails and says where (`bytes_eq_ok_iff`). `Takes n p`
says that `p` never succeeds on fewer than `n` bytes.
-/

namespace RemoteDebug.ClassFile

/-- A place in a byte string. -/
structure Cursor where
  /-- The bytes still to be read. -/
  rest : Bytes
  /-- The number of bytes already read. -/
  offset : Nat
  deriving DecidableEq, Repr

/-- The cursor at the start of a byte string. -/
def Cursor.start (bs : Bytes) : Cursor := ⟨bs, 0⟩

/-- The number of bytes still to be read. -/
def Cursor.remaining (c : Cursor) : Nat := c.rest.length

/-- Programs that read from a cursor. -/
abbrev Parse := StateT Cursor (Except Error)

namespace Parse

/-- Take the next `n` bytes. -/
def bytes (n : Nat) : Parse Bytes := fun c =>
  let taken := c.rest.take n
  if taken.length < n then .error (.endOfFile c.offset n)
  else .ok (taken, ⟨c.rest.drop n, c.offset + n⟩)

/-- Pass over the next `n` bytes. -/
def skip (n : Nat) : Parse Unit := do
  let _ ← bytes n

/-- The next `n` bytes as a number, most significant byte first. -/
def word (n : Nat) : Parse Nat := do
  return Bytes.bigEndian (← bytes n)

/-- The next byte. -/
def u8 : Parse UInt8 := do
  return UInt8.ofNat (← word 1)

/-- The next two bytes. -/
def u16 : Parse UInt16 := do
  return UInt16.ofNat (← word 2)

/-- The next four bytes. -/
def u32 : Parse UInt32 := do
  return UInt32.ofNat (← word 4)

/-- The next eight bytes. -/
def u64 : Parse UInt64 := do
  return UInt64.ofNat (← word 8)

/-- The bytes still to be read, counted. -/
def remaining : Parse Nat := do
  return (← get).remaining

/-- Run a program `n` times and collect its results. -/
def times {α : Type} (p : Parse α) : Nat → Parse (List α)
  | 0 => pure []
  | n + 1 => do
    let a ← p
    let as ← times p n
    return a :: as

theorem bytes_eq_ok_iff {n : Nat} {c c' : Cursor} {bs : Bytes} :
    bytes n c = .ok (bs, c') ↔
      n ≤ c.remaining ∧ bs = c.rest.take n ∧ c' = ⟨c.rest.drop n, c.offset + n⟩ := by
  unfold bytes Cursor.remaining
  simp only [List.length_take]
  split
  · constructor
    · intro h; cases h
    · intro h; omega
  · constructor
    · intro h; cases h; exact ⟨by omega, rfl, rfl⟩
    · rintro ⟨_, rfl, rfl⟩; rfl

/-- A sequence of two programs succeeds as its parts do. -/
theorem bind_eq_ok_iff {α β : Type} {p : Parse α} {k : α → Parse β} {c c' : Cursor} {b : β} :
    (p >>= k) c = .ok (b, c') ↔ ∃ a c₁, p c = .ok (a, c₁) ∧ k a c₁ = .ok (b, c') := by
  simp only [bind, StateT.bind, Except.bind]
  cases p c with
  | error e => simp
  | ok r => exact ⟨fun h => ⟨r.1, r.2, rfl, h⟩, fun ⟨_, _, hr, hk⟩ => by cases hr; exact hk⟩

/-- A program takes at least `n` bytes whenever it succeeds. -/
def Takes {α : Type} (n : Nat) (p : Parse α) : Prop :=
  ∀ ⦃c c' : Cursor⦄ ⦃a : α⦄, p c = .ok (a, c') → n + c'.remaining ≤ c.remaining

theorem length_bytes {n : Nat} {c c' : Cursor} {bs : Bytes} (h : bytes n c = .ok (bs, c')) :
    bs.length = n ∧ n + c'.remaining = c.remaining := by
  obtain ⟨hn, rfl, rfl⟩ := bytes_eq_ok_iff.mp h
  simp only [Cursor.remaining] at hn ⊢
  simp only [List.length_take, List.length_drop]
  omega

theorem takes_bytes (n : Nat) : Takes n (bytes n) :=
  fun _ _ _ h => Nat.le_of_eq (length_bytes h).2

theorem takes_pure {α : Type} (a : α) : Takes 0 (pure a : Parse α) := by
  intro c c' b h
  cases h
  omega

/-- A sequence takes what its parts take. -/
theorem Takes.bind {α β : Type} {m n : Nat} {p : Parse α} {k : α → Parse β}
    (hp : Takes m p) (hk : ∀ a, Takes n (k a)) : Takes (m + n) (p >>= k) := by
  intro c c' b h
  obtain ⟨a, c₁, h₁, h₂⟩ := bind_eq_ok_iff.mp h
  have := hp h₁
  have := hk a h₂
  omega

theorem takes_skip (n : Nat) : Takes n (skip n) :=
  (takes_bytes n).bind fun _ => takes_pure ()

theorem takes_word (n : Nat) : Takes n (word n) :=
  (takes_bytes n).bind fun _ => takes_pure _

theorem takes_u16 : Takes 2 u16 :=
  (takes_word 2).bind fun _ => takes_pure _

theorem takes_u32 : Takes 4 u32 :=
  (takes_word 4).bind fun _ => takes_pure _

end Parse

end RemoteDebug.ClassFile
