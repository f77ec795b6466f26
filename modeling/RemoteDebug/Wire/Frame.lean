import RemoteDebug.Wire.Packet
import RemoteDebug.Wire.Read

/-!
# Frames on the wire

The device answers a request for a stack frame with its index, its instruction and three texts.
Some devices write a zero byte after every text, some after none, and `Frame.decode` reads both.
`Frame.encode` writes a frame under either convention, with any words in the places that `decode`
passes over.
-/

namespace RemoteDebug.Wire

/-- A stack frame as the device reports it. -/
structure Frame where
  index : UInt32
  pc : UInt32
  className : String
  methodName : String
  descriptor : String
  deriving DecidableEq, Repr

namespace Frame

/-- Read a frame. Bytes after the descriptor are ignored. -/
def read : Read Frame := do
  let index ← Read.u32
  let pc ← Read.u32
  let className ← Read.text
  Read.terminator
  let methodName ← Read.text
  Read.terminator
  let descriptor ← Read.text
  return ⟨index, pc, className, methodName, descriptor⟩

/-- The frame that a payload holds. -/
def decode (payload : Bytes) : Except Fault Frame := (read.run payload).1

/-- A text as the device writes it, with `filler` in the word that readers pass over. -/
def text (terminated : Bool) (filler : UInt16) (s : String) : Bytes :=
  let bs := Utf8.encode s
  Bytes.toLittle 2 bs.length ++ Bytes.toLittle 2 filler.toNat ++ bs
    ++ if terminated then [0] else []

/-- The payload of a frame, with a filler for each text. -/
def encode (terminated : Bool) (f₁ f₂ f₃ : UInt16) (f : Frame) : Bytes :=
  Packet.word f.index ++ Packet.word f.pc ++ text terminated f₁ f.className
    ++ text terminated f₂ f.methodName ++ text terminated f₃ f.descriptor

end Frame

end RemoteDebug.Wire
