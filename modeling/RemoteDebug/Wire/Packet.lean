import RemoteDebug.Text.Units
import RemoteDebug.Wire.Fault

/-!
# Requests and replies

A request is an opcode and a payload. A reply is the echoed opcode, a status byte that is 0 on
success, and a payload. Words in a payload are least significant byte first. A text in a request
is its length, its checksum, its bytes and a zero byte.
-/

namespace RemoteDebug.Wire

/-- A request to the device. -/
structure Packet where
  opcode : Opcode
  payload : Bytes
  deriving DecidableEq, Repr

namespace Packet

/-- A request without payload. -/
def bare (op : Opcode) : Packet := ⟨op, []⟩

/-- A word of four bytes as the device reads it. -/
def word (n : UInt32) : Bytes := Bytes.toLittle 4 n.toNat

/-- A text as the device reads it. The length is that of the bytes, modulo 2 ^ 16. -/
def text (s : String) : Bytes :=
  let bs := Utf8.encode s
  Bytes.toLittle 2 bs.length ++ Bytes.toLittle 2 (Units.checksum s).toNat ++ bs ++ [0]

/-- The bytes of a request. -/
def encode (p : Packet) : Bytes := p.opcode :: p.payload

end Packet

/-- A reply from the device. -/
structure Reply where
  opcode : Opcode
  status : UInt8
  payload : Bytes
  deriving DecidableEq, Repr

/-- Why a reply is no answer to a request : it breaks the protocol, or the device refuses. -/
inductive Refusal where
  | fault (fault : Fault)
  | rejected (opcode : Opcode) (status : UInt8)
  deriving DecidableEq, Repr

namespace Reply

/-- The reply that some bytes hold. -/
def decode : Bytes → Except Fault Reply
  | opcode :: status :: payload => .ok ⟨opcode, status, payload⟩
  | short => .error (.shortReply short.length)

/-- The device reports a failure. -/
def isError (r : Reply) : Bool := r.status != 0

/-- Check that a reply answers `op` and reports success. -/
def check (r : Reply) (op : Opcode) : Except Refusal Unit :=
  if r.opcode ≠ op then .error (.fault (.wrongEcho op r.opcode))
  else if r.isError then .error (.rejected op r.status)
  else .ok ()

end Reply

end RemoteDebug.Wire
