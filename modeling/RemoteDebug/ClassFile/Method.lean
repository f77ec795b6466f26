import RemoteDebug.ClassFile.Attribute
import RemoteDebug.FirstBest

/-!
# Methods

A method keeps its code and, in it, the line table. The table may be in any order and may repeat
lines and instructions. `lineAt` looks up the line an instruction belongs to, `firstPc` the first
instruction of a line.
-/

namespace RemoteDebug.ClassFile

/-- A method of a class. -/
structure Method where
  flags : UInt16
  name : String
  descriptor : String
  code : Option Code
  deriving DecidableEq, Repr

namespace Method

/-- The method is implemented outside the class file. -/
def isNative (m : Method) : Bool := m.flags &&& 0x0100 != 0

/-- The method was generated to forward to another. -/
def isBridge (m : Method) : Bool := m.flags &&& 0x0040 != 0

/-- The method has no implementation. -/
def isAbstract (m : Method) : Bool := m.flags &&& 0x0400 != 0

/-- The line table, if there is one. -/
def lines (m : Method) : Option (List LineEntry) := m.code.bind (·.lines)

/-- The line of the row with the greatest start not past `pc`, the first such row on a tie. -/
def lineAt (m : Method) (pc : UInt32) : Option UInt16 := do
  let before := (← m.lines).filter fun row => row.startPc.toNat ≤ pc.toNat
  let row ← firstBest (fun later earlier => earlier.startPc < later.startPc) before
  return row.line

/-- The smallest start among the rows of a line. -/
def firstPc (m : Method) (line : UInt16) : Option UInt16 := do
  (((← m.lines).filter (·.line == line)).map (·.startPc)).min?

open Parse in
/-- Read a method. The first code attribute is its code. -/
def read (pool : Pool) : Parse Method := do
  let flags ← u16
  let name ← pool.utf8 (← u16)
  let descriptor ← pool.utf8 (← u16)
  let attributes ← Attribute.table pool
  let code := attributes.findSome? fun
    | .code code => some code
    | .lineNumbers _ => none
  return ⟨flags, name, descriptor, code⟩

end Method

end RemoteDebug.ClassFile
