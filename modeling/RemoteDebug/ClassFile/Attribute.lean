import RemoteDebug.ClassFile.Pool

/-!
# Attributes

An attribute is a name, a length and that many bytes of body. Two kinds are interpreted : `Code`,
whose body holds further attributes, and `LineNumberTable`. The others are passed over.

`head` cuts an attribute out of what is left : the body is read by a cursor of its own, so nothing
inside it can reach past it, and the next attribute starts where the length says (`head_size`).
`readAll` and `interpret` call each other, and each call has fewer bytes to read.
-/

namespace RemoteDebug.ClassFile

/-- A row of a line table : the instruction at which the code of a source line starts. -/
structure LineEntry where
  startPc : UInt16
  line : UInt16
  deriving DecidableEq, Repr

/-- The code of a method. -/
structure Code where
  maxStack : UInt16
  maxLocals : UInt16
  instructions : Bytes
  /-- The line tables one after the other, or nothing when there is none. -/
  lines : Option (List LineEntry)
  deriving DecidableEq, Repr

/-- The attributes that are interpreted. -/
inductive Attribute where
  | code (code : Code)
  | lineNumbers (entries : List LineEntry)
  deriving DecidableEq, Repr

namespace Attribute

open Parse

/-- Read the name and the body of an attribute. -/
def head (pool : Pool) : Parse (String × Bytes) := do
  let nameIndex ← u16
  let length ← u32
  let name ← pool.utf8 nameIndex
  let left ← remaining
  if left < length.toNat then
    throw (.overrun name length.toNat left)
  else
    return (name, ← bytes length.toNat)

/-- What stands before the attributes of a code body. -/
structure CodeHead where
  maxStack : UInt16
  maxLocals : UInt16
  instructions : Bytes
  /-- The number of attributes that follow. -/
  attributes : UInt16

/-- Read the head of a code body, without its exception table. -/
def codeHead : Parse CodeHead := do
  let maxStack ← u16
  let maxLocals ← u16
  let length ← u32
  let instructions ← bytes length.toNat
  let handlers ← u16
  skip (handlers.toNat * 8)
  let attributes ← u16
  return ⟨maxStack, maxLocals, instructions, attributes⟩

/-- Read a line table : a count, then that many rows. -/
def lineTable : Parse (List LineEntry) := do
  let count ← u16
  times (return ⟨← u16, ← u16⟩) count.toNat

/-- The rows of all line tables among some attributes, or nothing when there is none. -/
def linesOf : List Attribute → Option (List LineEntry)
  | [] => none
  | .code _ :: rest => linesOf rest
  | .lineNumbers entries :: rest => some (entries ++ (linesOf rest).getD [])

/-- An attribute takes six bytes and its body. -/
theorem head_size {pool : Pool} {c next : Cursor} {name : String} {body : Bytes}
    (h : head pool c = .ok ((name, body), next)) :
    6 + body.length + next.remaining ≤ c.remaining := by
  obtain ⟨i, c₁, h₁, hr₁⟩ := bind_eq_ok_iff.mp h
  obtain ⟨n, c₂, h₂, hr₂⟩ := bind_eq_ok_iff.mp hr₁
  obtain ⟨s, c₃, h₃, hr₃⟩ := bind_eq_ok_iff.mp hr₂
  obtain ⟨l, c₄, h₄, hr₄⟩ := bind_eq_ok_iff.mp hr₃
  have hc₃ : c₃ = c₂ := by
    cases hs : pool.utf8 i with
    | error e => rw [hs] at h₃; cases h₃
    | ok s => rw [hs] at h₃; cases h₃; rfl
  have hc₄ : c₄ = c₃ := by cases h₄; rfl
  have h₁ := takes_u16 h₁
  have h₂ := takes_u32 h₂
  split at hr₄
  · cases hr₄
  · obtain ⟨bs, c₅, h₅, hr₅⟩ := bind_eq_ok_iff.mp hr₄
    have h₅ := length_bytes h₅
    cases hr₅
    rw [hc₄, hc₃] at h₅
    omega

/-- The head of a code body takes at least twelve bytes. -/
theorem takes_codeHead : Takes 12 codeHead := by
  intro c c' a h
  obtain ⟨_, _, h₁, h⟩ := bind_eq_ok_iff.mp h
  obtain ⟨_, _, h₂, h⟩ := bind_eq_ok_iff.mp h
  obtain ⟨_, _, h₃, h⟩ := bind_eq_ok_iff.mp h
  obtain ⟨_, _, h₄, h⟩ := bind_eq_ok_iff.mp h
  obtain ⟨_, _, h₅, h⟩ := bind_eq_ok_iff.mp h
  obtain ⟨_, _, h₆, h⟩ := bind_eq_ok_iff.mp h
  obtain ⟨_, _, h₇, h⟩ := bind_eq_ok_iff.mp h
  have h₁ := takes_u16 h₁
  have h₂ := takes_u16 h₂
  have h₃ := takes_u32 h₃
  have h₄ := takes_bytes _ h₄
  have h₅ := takes_u16 h₅
  have h₆ := takes_skip _ h₆
  have h₇ := takes_u16 h₇
  cases h
  omega

/-! ## Interpretation -/

mutual

/-- Read `n` attributes and keep the interpreted ones. -/
def readAll (pool : Pool) (n : Nat) (c : Cursor) : Except Error (List Attribute × Cursor) :=
  match n with
  | 0 => .ok ([], c)
  | n + 1 =>
    match _h : head pool c with
    | .error e => .error e
    | .ok ((name, body), next) => do
      let first ← interpret pool name body
      let (others, c') ← readAll pool n next
      return (first.toList ++ others, c')
termination_by c.remaining
decreasing_by
  all_goals
    have := head_size _h
    omega

/-- The meaning of an attribute with a given name and body, or nothing when it has none. A body
may be longer than its content. -/
def interpret (pool : Pool) (name : String) (body : Bytes) : Except Error (Option Attribute) :=
  if name = "Code" then
    match _h : codeHead (Cursor.start body) with
    | .error e => .error e
    | .ok (front, c) => do
      let (inner, _) ← readAll pool front.attributes.toNat c
      return some (.code ⟨front.maxStack, front.maxLocals, front.instructions, linesOf inner⟩)
  else if name = "LineNumberTable" then do
    let (entries, _) ← lineTable (Cursor.start body)
    return some (.lineNumbers entries)
  else
    return none
termination_by body.length
decreasing_by
  have := takes_codeHead _h
  simp only [Cursor.start, Cursor.remaining] at this ⊢
  omega

end

/-- Read one attribute, or nothing when it is passed over. -/
def read (pool : Pool) : Parse (Option Attribute) := do
  let (name, body) ← head pool
  interpret pool name body

/-- Read an attribute table : a count, then that many attributes. -/
def table (pool : Pool) : Parse (List Attribute) := do
  let count ← u16
  readAll pool count.toNat

end Attribute

end RemoteDebug.ClassFile
