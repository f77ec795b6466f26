import RemoteDebug.Fault
import RemoteDebug.Text.Hexadecimal

/-!
# Class-file errors

`Error` has one constructor for each way in which loading a class file fails, `Error.message` is
its wording. A pool entry has a `Kind`, and whoever refers to an entry expects it to play a
`Role`. `Role.allows` says which kinds play it.
-/

namespace RemoteDebug.ClassFile

/-- The kinds of constant-pool entries. -/
inductive Kind where
  | utf8 | integer | float | long | double | reserved | classRef | string | methodType
  | fieldRef | methodRef | interfaceMethodRef | nameAndType | methodHandle | invokeDynamic
  deriving DecidableEq, Repr

/-- The name of a kind in messages. -/
def Kind.name : Kind → String
  | .utf8 => "Utf8"
  | .integer => "Integer"
  | .float => "Float"
  | .long => "Long"
  | .double => "Double"
  | .reserved => "Reserved"
  | .classRef => "Class"
  | .string => "String"
  | .methodType => "MethodType"
  | .fieldRef => "FieldRef"
  | .methodRef => "MethodRef"
  | .interfaceMethodRef => "InterfaceMethodRef"
  | .nameAndType => "NameAndType"
  | .methodHandle => "MethodHandle"
  | .invokeDynamic => "InvokeDynamic"

/-- What a reference into the pool expects to find. -/
inductive Role where
  | utf8 | classRef | nameAndType | member
  deriving DecidableEq, Repr

/-- The name of a role in messages. -/
def Role.name : Role → String
  | .utf8 => "Utf8"
  | .classRef => "Class"
  | .nameAndType => "NameAndType"
  | .member => "member reference"

/-- Entries of kind `k` play the role. -/
def Role.allows (r : Role) (k : Kind) : Bool :=
  match r with
  | .utf8 => k == .utf8
  | .classRef => k == .classRef
  | .nameAndType => k == .nameAndType
  | .member => k == .fieldRef || k == .methodRef || k == .interfaceMethodRef

/-- Why a class file cannot be loaded. -/
inductive Error where
  /-- The file cannot be read. -/
  | io (fault : Fault)
  /-- Fewer than `needed` bytes are left at `offset`. -/
  | endOfFile (offset needed : Nat)
  /-- The first word is not the class-file mark. -/
  | badMagic (found : UInt32)
  /-- A pool entry at `offset` has a tag that no kind has. -/
  | unknownTag (tag : UInt8) (offset : Nat)
  /-- A pool index that names no entry. -/
  | badIndex (index : UInt16)
  /-- A pool index that names an entry which does not play the expected role. -/
  | wrongKind (index : UInt16) (expected : Role) (found : Kind)
  /-- An attribute longer than what is left. -/
  | overrun (name : String) (length remaining : Nat)
  deriving DecidableEq, Repr

/-- The wording of an error. -/
def Error.message : Error → String
  | .io fault => s!"IO error: {fault.message}"
  | .endOfFile offset needed =>
    s!"Unexpected end of class file at offset {offset} (needed {needed} bytes)"
  | .badMagic found =>
    "Invalid class file magic: 0x" ++ Hexadecimal.padded 8 found.toNat
  | .unknownTag tag offset => s!"Unknown constant pool tag {tag.toNat} at offset {offset}"
  | .badIndex index => s!"Invalid constant pool index: {index.toNat}"
  | .wrongKind index expected found =>
    s!"Constant pool type mismatch at index {index.toNat}: "
      ++ s!"expected {expected.name}, found {found.name}"
  | .overrun name length remaining =>
    s!"Attribute {name} declares {length} bytes but only {remaining} remain"

end RemoteDebug.ClassFile
