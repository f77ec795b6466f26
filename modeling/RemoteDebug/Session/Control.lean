import RemoteDebug.Session.Frames

/-!
# Running, stopping and stepping

The status that the session knows decides whether the device is asked at all. After a request to
stop or to step, `waitStop` looks at the status again and again until the device stands still or
the response timeout has passed. It ends because every pause takes time, which a valid
configuration guarantees.
-/

namespace RemoteDebug.Op

/-- Let the device run, unless it already does. -/
def resume : Op Unit := do
  requireLink
  if (← session).status.stopped then
    act .resuming
    let _ ← command (.bare Wire.Opcode.run)
    act .resumed

/-- Wait until the device stands still, looking again after each pause, with `spent` milliseconds
gone already. The wait ends at the first look after the response timeout. -/
def waitStopFrom (c : Config) (h : c.Valid) (spent : Nat) : Op Unit := do
  if (← session).status.stopped then
    return
  else if _ht : c.responseTimeout.toNat ≤ spent then
    throw (.timeout Wire.Opcode.readStatus c.responseTimeout)
  else
    let pause ← sleep c.stopPoll.toNat
    requireLink
    let t₁ ← acquire
    let t₂ ← releasing refresh
    waitStopFrom c h (spent + pause.val + t₁ + t₂)
termination_by c.responseTimeout.toNat - spent
decreasing_by
  have hs : c.stopPoll.toNat ≠ 0 := fun h₀ =>
    (Config.valid_iff.mp h).2.2.1 (UInt64.toNat_inj.mp (h₀.trans UInt64.toNat_zero.symm))
  have := pause.property
  omega

/-- Wait until the device stands still. -/
def waitStop : Op Unit := do
  let s ← session
  waitStopFrom s.config s.valid 0

/-- Halt the device, unless it already stands still. -/
def stop : Op Unit := do
  requireLink
  unless (← session).status.stopped do
    let _ ← command (.bare Wire.Opcode.stop)
    waitStop

/-- Execute one instruction and read the frame after it. -/
def singleStep : Op StackFrame := do
  requireLink
  act .stepping
  let _ ← command (.bare Wire.Opcode.singleStep)
  waitStop
  readFrame 0

/-- Step at most `n` times, until a frame is on another line than `start` or equal to it, which is
to say that the device does not move. -/
def stepFrom (start : StackFrame) (limit : UInt32) : (n : Nat) → Op StackFrame
  | 0 => throw (.stepLimit limit)
  | n + 1 => do
    let frame ← singleStep
    if !frame.sameLine start || frame == start then
      act (.cached [frame])
      return frame
    else stepFrom start limit n

/-- Step until the device leaves the line. -/
def stepIn : Op StackFrame := do
  requireLink
  let s ← session
  if s.status.stopped then
    let start ← topFrame
    stepFrom start s.config.maxSteps s.config.maxSteps.toNat
  else throw .notStopped

end RemoteDebug.Op
