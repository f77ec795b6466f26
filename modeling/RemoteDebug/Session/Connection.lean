import RemoteDebug.Session.Prog

/-!
# Connecting and raw requests

`connect` lets go of an earlier connection before it reaches for the device, so a failed attempt
leaves the session without one. Raw requests go to the device as they are.
-/

namespace RemoteDebug.Op

/-- Let go of the connection, if there is one. -/
def disconnect : Op Unit := act .disconnected

/-- Connect to the device, after letting go of an earlier connection. -/
def connect : Op Unit := do
  disconnect
  dial
  act .connected

/-- Send bytes to the device as they are and return its answer as it is. -/
def sendRaw (request : Bytes) : Op Bytes := do
  requireLink
  send request

end RemoteDebug.Op
