import RemoteDebug.ClassFile.Method

/-!
# Class files

`ClassFile.parse` reads a class file in one forward pass and keeps what a debugger needs : the
pool, the header and the methods with code of their own. What is dropped, interfaces, fields and
class attributes, is still read, so a bad length in it is an error. Bytes after the class
attributes are ignored, and a file may end before them.
-/

namespace RemoteDebug

open ClassFile (Pool Method Error Parse Attribute)

/-- A class file, as far as a debugger needs it. -/
structure ClassFile where
  minorVersion : UInt16
  majorVersion : UInt16
  pool : Pool
  flags : UInt16
  /-- Pool index of the class itself. -/
  thisClass : UInt16
  /-- Pool index of the class it extends, or 0. -/
  superClass : UInt16
  interfaceCount : UInt16
  methods : List Method
  deriving DecidableEq, Repr

namespace ClassFile

/-- The word every class file starts with. -/
def mark : UInt32 := 0xCAFEBABE

open Parse in
/-- Read a field. Nothing of it is kept. -/
def readField (pool : Pool) : Parse Unit := do
  skip 6
  let _ ← Attribute.table pool

open Parse in
/-- Read a class file. -/
def read : Parse ClassFile := do
  let magic ← u32
  if magic ≠ mark then
    throw (.badMagic magic)
  else
    let minorVersion ← u16
    let majorVersion ← u16
    let pool ← Pool.parse
    let flags ← u16
    let thisClass ← u16
    let superClass ← u16
    let interfaceCount ← u16
    skip (interfaceCount.toNat * 2)
    let _ ← times (readField pool) (← u16).toNat
    let methods ← times (Method.read pool) (← u16).toNat
    let _ ← if (← remaining) = 0 then pure [] else Attribute.table pool
    return {
      minorVersion, majorVersion, pool, flags, thisClass, superClass, interfaceCount
      methods := methods.filter fun m => !m.isNative && !m.isBridge }

/-- The class file that a byte string holds. -/
def parse (bs : Bytes) : Except Error ClassFile :=
  read.run' (Cursor.start bs)

/-- The name of the class. -/
def thisName (file : ClassFile) : Except Error String :=
  file.pool.className file.thisClass

/-- The name of the class it extends. The root of all classes extends none. -/
def superName (file : ClassFile) : Except Error (Option String) :=
  if file.superClass = 0 then pure none else some <$> file.pool.className file.superClass

/-- The first method with a given name and descriptor. -/
def method? (file : ClassFile) (name descriptor : String) : Option Method :=
  file.methods.find? fun m => m.name == name && m.descriptor == descriptor

end ClassFile

end RemoteDebug
