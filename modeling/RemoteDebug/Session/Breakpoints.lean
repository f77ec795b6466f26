import RemoteDebug.Session.Prog

/-!
# Breakpoints

`setBreakpoints` makes the breakpoints of one source those on given lines. It works out the changes
(`Session.toRemove`, `Session.toAdd`), resolves every new line, and only then asks the device for
one change after the other, removals first. A change that fails ends it, and the session keeps
exactly those changes that the device acknowledged.
-/

namespace RemoteDebug

/-- The lines of a request, each once, in the order of their first occurrence. -/
def Session.requested (lines : List UInt32) : List UInt32 := lines.eraseDups

/-- The breakpoints of a source that a request no longer names. -/
def Session.toRemove (s : Session) (lines : List UInt32) (source : String) : List Location :=
  s.breakpoints.filter fun b => b.source == source && !lines.contains b.line

/-- The lines of a request that have no breakpoint yet. -/
def Session.toAdd (s : Session) (lines : List UInt32) (source : String) : List UInt32 :=
  (Session.requested lines).filter fun line => !s.breakpoints.any (·.isAt source line)

namespace Op

/-- What a request for breakpoints changed. -/
structure Update where
  added : Nat
  removed : Nat
  deriving DecidableEq, Repr

/-- Carry out changes one by one. Each is noted when the device has acknowledged it. -/
def carryOut : List Edit → Op Unit
  | [] => return
  | edit :: edits => do
    let _ ← command edit.packet
    act (.edited edit)
    carryOut edits

/-- Make the breakpoints of a source those on the given lines. All lines are resolved before the
first request goes out. -/
def setBreakpoints (lines : List UInt32) (source : String) : Op Update := do
  requireLink
  let s ← session
  let removed := s.toRemove lines source
  let added ← ofExcept .unresolved ((s.toAdd lines source).mapM fun line =>
    s.registry.locate line source)
  carryOut (removed.map .remove ++ added.map .add)
  return ⟨added.length, removed.length⟩

/-- Remove all breakpoints. -/
def removeAllBreakpoints : Op Unit := do
  requireLink
  let _ ← command (.bare Wire.Opcode.removeAllBreakpoints)
  act .cleared

end Op

end RemoteDebug
