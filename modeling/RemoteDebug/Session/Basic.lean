import RemoteDebug.Event
import RemoteDebug.Failure
import RemoteDebug.Status

/-!
# The state of a session

A session knows the classes, the connection, the last status, the frames read while the device
stands still, and the breakpoints the device has acknowledged.

All changes to it are `Act`s : `Session.apply` is the state after an act and `Session.events` what
the act reports. So a history of a session is a list of acts, and a law over all histories is an
induction over `apply`.
-/

namespace RemoteDebug

/-- A stack frame with its place in the source. -/
structure StackFrame where
  index : UInt32
  pc : UInt32
  className : String
  methodName : String
  descriptor : String
  source : String
  line : UInt32
  deriving DecidableEq, Repr

/-- Two frames are on the same source line. -/
def StackFrame.sameLine (f g : StackFrame) : Bool := f.line == g.line && f.source == g.source

/-- The connection of a session. -/
inductive Link where
  /-- There is none. -/
  | absent
  | up
  /-- The device is gone, and the session has not let go of the connection. -/
  | lost
  deriving DecidableEq, Repr

/-- A change to the breakpoints. -/
inductive Edit where
  | add (l : Location)
  | remove (l : Location)
  deriving DecidableEq, Repr

/-- The request that asks the device for a change. -/
def Edit.packet : Edit → Wire.Packet
  | .add l => l.packet Wire.Opcode.addBreakpoint
  | .remove l => l.packet Wire.Opcode.removeBreakpoint

/-- The breakpoints after a change. What is removed is everything on its line. -/
def Edit.apply (breakpoints : List Location) : Edit → List Location
  | .add l => breakpoints ++ [l]
  | .remove l => breakpoints.filter fun b => !b.sameLine l

/-- The state of a session. -/
structure Session where
  config : Config
  valid : config.Valid
  registry : Registry
  link : Link
  /-- The last status, as far as it is known. -/
  status : Status
  /-- The frames read since the device last moved. -/
  frames : Option (List StackFrame)
  /-- The breakpoints the device has acknowledged. -/
  breakpoints : List Location
  deriving DecidableEq, Repr

/-- What happens to a session. -/
inductive Act where
  /-- A connection was made. -/
  | connected
  /-- The session let go of its connection. -/
  | disconnected
  /-- The device closed the connection, or reading from it failed. -/
  | lost (cause : Option Fault)
  /-- The device is about to be asked to run. -/
  | resuming
  /-- The device runs. -/
  | resumed
  /-- The device is about to be asked to execute an instruction. -/
  | stepping
  /-- The device reported its status. -/
  | reading (status : Status)
  /-- Frames were read. -/
  | cached (frames : List StackFrame)
  /-- The device acknowledged a change to the breakpoints. -/
  | edited (edit : Edit)
  /-- The device acknowledged the removal of all breakpoints. -/
  | cleared
  /-- Classes were loaded. -/
  | loaded (registry : Registry)
  deriving DecidableEq, Repr

namespace Session

/-- A session that was never connected. -/
def new (config : Config) (valid : config.Valid) : Session where
  config := config
  valid := valid
  registry := Registry.empty config.sourceRoot
  link := .absent
  status := Status.initial
  frames := none
  breakpoints := []

/-- The session has a connection that works. -/
def isConnected (s : Session) : Bool := s.link == .up

/-- What the session knows about the device. -/
def deviceState (s : Session) : DeviceState :=
  if s.isConnected then s.status.deviceState else .disconnected

/-- The session with nothing known about the device, and a given connection. -/
def clean (s : Session) (link : Link) : Session :=
  { s with link, status := Status.initial, frames := none, breakpoints := [] }

/-- The state after an act. -/
def apply (s : Session) : Act → Session
  | .connected => s.clean .up
  | .disconnected => if s.link = .absent then s else s.clean .absent
  | .lost _ => if s.link = .up then { s with link := .lost } else s
  | .resuming => { s with frames := none, status := s.status.clear Status.hitBit }
  | .resumed => { s with status := s.status.clear Status.stopBit }
  | .stepping => { s with frames := none, status := s.status.clear Status.hitBit }
  | .reading status =>
    let stale := (Status.Change.between s.status status).framesStale
    { s with status, frames := if stale then none else s.frames }
  | .cached frames => { s with frames := some frames }
  | .edited edit => { s with breakpoints := edit.apply s.breakpoints }
  | .cleared => { s with breakpoints := [] }
  | .loaded registry => { s with registry }

@[simp]
theorem status_apply_lost (s : Session) (cause : Option Fault) :
    (s.apply (.lost cause)).status = s.status := by
  simp only [apply]
  split <;> rfl

@[simp]
theorem frames_apply_lost (s : Session) (cause : Option Fault) :
    (s.apply (.lost cause)).frames = s.frames := by
  simp only [apply]
  split <;> rfl

/-- What an act reports. A connection that is already down is not reported again. -/
def events (s : Session) : Act → List Event
  | .disconnected => if s.link = .up then [.connectionClosed] else []
  | .lost cause =>
    if s.link = .up then
      (cause.map fun fault => Event.connectionError fault.message).toList ++ [.connectionClosed]
    else []
  | .reading status =>
    if (Status.Change.between s.status status).breakpointHit then [.breakpointHit] else []
  | _ => []

end Session

end RemoteDebug
