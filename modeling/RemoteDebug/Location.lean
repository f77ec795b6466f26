import RemoteDebug.Wire.Packet

/-!
# Locations

A location is a source line together with the instruction that carries it. As a breakpoint it is
known by its source line alone (`Location.isAt`), while the device knows it by class, method and
instruction (`Location.packet`).
-/

namespace RemoteDebug

/-- A source line and the instruction that carries it. -/
structure Location where
  source : String
  line : UInt32
  pc : UInt32
  className : String
  methodName : String
  descriptor : String
  deriving DecidableEq, Repr

namespace Location

/-- The location is on a given source line. -/
def isAt (l : Location) (source : String) (line : UInt32) : Bool :=
  l.source == source && l.line == line

/-- Two locations are on the same source line. -/
def sameLine (l m : Location) : Bool := l.isAt m.source m.line

/-- A class name with slashes for backslashes. -/
def slashed (name : String) : String := name.map fun c => if c = '\\' then '/' else c

/-- The payload by which the device knows the location. -/
def payload (l : Location) : Bytes :=
  Wire.Packet.word l.pc ++ Wire.Packet.text (slashed l.className)
    ++ Wire.Packet.text l.methodName ++ Wire.Packet.text l.descriptor

/-- The request that names the location to the device. -/
def packet (op : Wire.Opcode) (l : Location) : Wire.Packet := ⟨op, l.payload⟩

end Location

end RemoteDebug
