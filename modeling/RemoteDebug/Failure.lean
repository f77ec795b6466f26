import RemoteDebug.Config
import RemoteDebug.Registry.Resolve
import RemoteDebug.Wire.Packet

/-!
# Failures of a session

`Failure` has one constructor for each way in which an operation of a session fails.
-/

namespace RemoteDebug

/-- Why an operation failed. -/
inductive Failure where
  | io (fault : Fault)
  /-- A reply that breaks the protocol. -/
  | protocol (fault : Wire.Fault)
  /-- No reply in time. -/
  | timeout (opcode : Wire.Opcode) (ms : UInt64)
  /-- The device refuses. -/
  | rejected (opcode : Wire.Opcode) (status : UInt8)
  | connectionClosed
  | notConnected
  | notStopped
  | unresolved (what : Unresolved)
  /-- Stepping did not leave the line. -/
  | stepLimit (steps : UInt32)
  | config (fault : Config.Fault)
  deriving DecidableEq, Repr

/-- The wording of a failure. -/
def Failure.message : Failure → String
  | .io fault => s!"IO error: {fault.message}"
  | .protocol fault => s!"Protocol error: {fault.message}"
  | .timeout opcode ms => s!"No reply to opcode {opcode.toNat} within {ms.toNat} ms"
  | .rejected opcode status =>
    s!"Device rejected opcode {opcode.toNat} with status {status.toNat}"
  | .connectionClosed => "Connection closed"
  | .notConnected => "Not connected"
  | .notStopped => "Device is not stopped"
  | .unresolved what => what.message
  | .stepLimit steps => s!"Step did not leave the line after {steps.toNat} instructions"
  | .config fault => s!"Configuration error: {fault.message}"

/-- The failure that a refused reply is. -/
def Failure.ofRefusal : Wire.Refusal → Failure
  | .fault fault => .protocol fault
  | .rejected opcode status => .rejected opcode status

end RemoteDebug
