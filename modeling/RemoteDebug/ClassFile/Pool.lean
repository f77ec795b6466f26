import RemoteDebug.ClassFile.Cursor
import RemoteDebug.Text.Utf8

/-!
# The constant pool

A pool is a row of slots counted from 1. An `Entry` fills one slot, except that a long or double
fills two, the second of which is `reserved`. `Pool.parse` reads the slots and then checks that
every reference of every entry leads to an entry of the expected role (`Pool.check`). After that,
the lookups `utf8`, `className` and `nameAndType` succeed wherever an entry says they do.
-/

namespace RemoteDebug.ClassFile

/-- A constant-pool entry. References to other entries are pool indices. -/
inductive Entry where
  | utf8 (text : String)
  | integer (bits : UInt32)
  | float (bits : UInt32)
  | long (bits : UInt64)
  | double (bits : UInt64)
  /-- The second slot of a long or double. -/
  | reserved
  | classRef (name : UInt16)
  | string (text : UInt16)
  | methodType (descriptor : UInt16)
  | fieldRef (owner nameAndType : UInt16)
  | methodRef (owner nameAndType : UInt16)
  | interfaceMethodRef (owner nameAndType : UInt16)
  | nameAndType (name descriptor : UInt16)
  | methodHandle (kind : UInt8) (target : UInt16)
  | invokeDynamic (bootstrap nameAndType : UInt16)
  deriving DecidableEq, Repr

namespace Entry

/-- The kind of an entry. -/
def kind : Entry → Kind
  | .utf8 _ => .utf8
  | .integer _ => .integer
  | .float _ => .float
  | .long _ => .long
  | .double _ => .double
  | .reserved => .reserved
  | .classRef _ => .classRef
  | .string _ => .string
  | .methodType _ => .methodType
  | .fieldRef _ _ => .fieldRef
  | .methodRef _ _ => .methodRef
  | .interfaceMethodRef _ _ => .interfaceMethodRef
  | .nameAndType _ _ => .nameAndType
  | .methodHandle _ _ => .methodHandle
  | .invokeDynamic _ _ => .invokeDynamic

/-- The entry fills two slots. -/
def isWide (e : Entry) : Bool := e.kind == .long || e.kind == .double

/-- The pool indices an entry holds, in order, with the role it expects at each. -/
def references : Entry → List (UInt16 × Role)
  | .classRef name => [(name, .utf8)]
  | .string text => [(text, .utf8)]
  | .methodType descriptor => [(descriptor, .utf8)]
  | .fieldRef owner member => [(owner, .classRef), (member, .nameAndType)]
  | .methodRef owner member => [(owner, .classRef), (member, .nameAndType)]
  | .interfaceMethodRef owner member => [(owner, .classRef), (member, .nameAndType)]
  | .nameAndType name descriptor => [(name, .utf8), (descriptor, .utf8)]
  | .methodHandle _ target => [(target, .member)]
  | .invokeDynamic _ member => [(member, .nameAndType)]
  | .utf8 _ | .integer _ | .float _ | .long _ | .double _ | .reserved => []

open Parse in
/-- Read the entry that a tag announces. The tag is the byte just read. -/
def read (tag : UInt8) : Parse Entry :=
  match tag with
  | 1 => do
    let length ← u16
    return .utf8 (Utf8.decodeLossy (← bytes length.toNat))
  | 3 => return .integer (← u32)
  | 4 => return .float (← u32)
  | 5 => return .long (← u64)
  | 6 => return .double (← u64)
  | 7 => return .classRef (← u16)
  | 8 => return .string (← u16)
  | 9 => return .fieldRef (← u16) (← u16)
  | 10 => return .methodRef (← u16) (← u16)
  | 11 => return .interfaceMethodRef (← u16) (← u16)
  | 12 => return .nameAndType (← u16) (← u16)
  | 15 => return .methodHandle (← u8) (← u16)
  | 16 => return .methodType (← u16)
  | 18 => return .invokeDynamic (← u16) (← u16)
  | _ => do throw (.unknownTag tag ((← get).offset - 1))

open Parse in
/-- Read the entries of the last `n` of `slots` slots. A wide entry needs a slot after its own. -/
def readSlots (slots : Nat) : (n : Nat) → Parse (List Entry)
  | 0 => return []
  | n + 1 => do
    let e ← read (← u8)
    if e.isWide then
      match n with
      | 0 => throw (.badIndex (UInt16.ofNat (slots + 1)))
      | n + 1 => return e :: .reserved :: (← readSlots slots n)
    else
      return e :: (← readSlots slots n)

end Entry

/-- A constant pool. -/
structure Pool where
  /-- The slots, the first of which has index 1. -/
  slots : Array Entry
  deriving DecidableEq, Repr

namespace Pool

/-- The entry at an index. Index 0, an index past the last slot and the second slot of a wide
entry name none. -/
def get (pool : Pool) (index : UInt16) : Except Error Entry :=
  match index.toNat with
  | 0 => throw (.badIndex index)
  | slot + 1 =>
    match pool.slots[slot]? with
    | none | some .reserved => throw (.badIndex index)
    | some e => return e

/-- The text at an index. -/
def utf8 (pool : Pool) (index : UInt16) : Except Error String := do
  match ← pool.get index with
  | .utf8 text => return text
  | e => throw (.wrongKind index .utf8 e.kind)

/-- The name of the class at an index. -/
def className (pool : Pool) (index : UInt16) : Except Error String := do
  match ← pool.get index with
  | .classRef name => pool.utf8 name
  | e => throw (.wrongKind index .classRef e.kind)

/-- The name and the descriptor at an index. -/
def nameAndType (pool : Pool) (index : UInt16) : Except Error (String × String) := do
  match ← pool.get index with
  | .nameAndType name descriptor => return (← pool.utf8 name, ← pool.utf8 descriptor)
  | e => throw (.wrongKind index .nameAndType e.kind)

/-- Check that the entry at an index plays a role. -/
def expect (pool : Pool) (index : UInt16) (role : Role) : Except Error Unit := do
  let e ← pool.get index
  unless role.allows e.kind do throw (.wrongKind index role e.kind)

/-- Check every reference of every entry, in order. -/
def check (pool : Pool) : Except Error Unit :=
  pool.slots.toList.forM fun e => e.references.forM fun (index, role) => pool.expect index role

open Parse in
/-- Read a pool : a count one larger than the number of slots, then the slots. -/
def parse : Parse Pool := do
  let slots := (← u16).toNat - 1
  let pool : Pool := ⟨(← Entry.readSlots slots slots).toArray⟩
  pool.check
  return pool

end Pool

end RemoteDebug.ClassFile
