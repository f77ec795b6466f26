import RemoteDebug.Session.Prog
import RemoteDebug.Wire.Frame

/-!
# Stack frames

Frames come from the device and are given their place in the source. The frame that executes is
kept in the session until the device moves, and while it is there the device is not asked.
-/

namespace RemoteDebug.Op

/-- Ask the device for the frame at an index and find its place in the source. -/
def readFrame (index : UInt32) : Op StackFrame := do
  requireLink
  let reply ← command ⟨Wire.Opcode.readStackTrace, Wire.Packet.word index⟩
  let raw ← ofExcept .protocol (Wire.Frame.decode reply.payload)
  if raw.index ≠ index then
    throw (.protocol (.wrongFrame index raw.index))
  else
    let registry := (← session).registry
    let l ← ofExcept .unresolved
      (registry.lineAt raw.pc raw.className raw.methodName raw.descriptor)
    return ⟨raw.index, raw.pc, l.className, l.methodName, l.descriptor, l.source, l.line⟩

/-- The frames of the device. It shows only the one that executes. -/
def stackFrames : Op (List StackFrame) := do
  match (← session).frames with
  | some frames => return frames
  | none =>
    let frame ← readFrame 0
    act (.cached [frame])
    return [frame]

/-- The frame that executes. -/
def topFrame : Op StackFrame := do
  match (← session).frames with
  | some (frame :: _) => return frame
  | _ =>
    let frame ← readFrame 0
    act (.cached [frame])
    return frame

/-- The frame at an index. -/
def stackFrame (index : UInt32) : Op StackFrame :=
  if index = 0 then topFrame else readFrame index

end RemoteDebug.Op
