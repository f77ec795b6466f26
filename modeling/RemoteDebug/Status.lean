/-!
# The device status

The device reports its status as a byte of flags. Before the first report it is taken to stand
halted on a breakpoint (`Status.initial`). `Status.Change.between` is what one reading tells about
the one before it.
-/

namespace RemoteDebug

/-- The status byte of the device. -/
structure Status where
  bits : UInt8
  deriving DecidableEq, Repr

namespace Status

/-- The flag of a halted device. -/
def stopBit : UInt8 := 0x01

/-- The flag of a device that reached a breakpoint. -/
def hitBit : UInt8 := 0x02

/-- The flag of a device that executes single instructions. -/
def stepBit : UInt8 := 0x04

/-- Halted on a breakpoint. -/
def initial : Status := ⟨stopBit ||| hitBit⟩

/-- The device is halted. -/
def stopped (s : Status) : Bool := s.bits &&& stopBit != 0

/-- The device reached a breakpoint. -/
def hit (s : Status) : Bool := s.bits &&& hitBit != 0

/-- The device executes single instructions. -/
def singleStep (s : Status) : Bool := s.bits &&& stepBit != 0

/-- The status with the flags of `mask` cleared. -/
def clear (s : Status) (mask : UInt8) : Status := ⟨s.bits &&& ~~~mask⟩

@[simp]
theorem stopped_clear_stopBit (s : Status) : (s.clear stopBit).stopped = false := by
  simp [stopped, clear, UInt8.and_assoc]

@[simp]
theorem hit_clear_hitBit (s : Status) : (s.clear hitBit).hit = false := by
  simp [hit, clear, UInt8.and_assoc]

@[simp]
theorem hit_clear_stopBit (s : Status) : (s.clear stopBit).hit = s.hit := by
  have hbits : ~~~stopBit &&& hitBit = hitBit := by decide
  rw [hit, hit, clear, UInt8.and_assoc, hbits]

/-- What changed between two readings. -/
structure Change where
  /-- The hit flag came up. -/
  breakpointHit : Bool
  /-- The stop flag changed. -/
  stopToggled : Bool
  /-- Frames read before no longer describe the device. -/
  framesStale : Bool
  deriving DecidableEq, Repr

/-- The change from one reading to the next. Leaving a breakpoint while halted moves the frame
too, so a change of either flag makes frames stale. -/
def Change.between (old new : Status) : Change where
  breakpointHit := !old.hit && new.hit
  stopToggled := old.stopped != new.stopped
  framesStale := old.stopped != new.stopped || old.hit != new.hit

end Status

/-- What a debugger knows about the device. -/
inductive DeviceState where
  | disconnected
  | running
  | stopped (hit : Bool)
  deriving DecidableEq, Repr

/-- What a status says about a connected device. -/
def Status.deviceState (s : Status) : DeviceState :=
  if s.stopped then .stopped s.hit else .running

end RemoteDebug
