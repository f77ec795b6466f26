import RemoteDebug.Text.Utf8

/-!
# Opcodes and faults of the device protocol

A request starts with a one-byte opcode, and the reply to it echoes that byte. `Fault` has one
constructor for each way in which a reply breaks the protocol.
-/

namespace RemoteDebug.Wire

/-- The first byte of a request. -/
abbrev Opcode := UInt8

namespace Opcode

/-- Report the status. -/
def readStatus : Opcode := 0

/-- Report a stack frame. -/
def readStackTrace : Opcode := 1

/-- Add a breakpoint. -/
def addBreakpoint : Opcode := 2

/-- Remove a breakpoint. -/
def removeBreakpoint : Opcode := 3

/-- Remove all breakpoints. -/
def removeAllBreakpoints : Opcode := 4

/-- Go on running. -/
def run : Opcode := 5

/-- Halt. -/
def stop : Opcode := 6

/-- Execute one instruction. -/
def singleStep : Opcode := 7

/-- The name of an opcode in messages. Opcodes 8 and 9 are the device's and never sent. -/
def name (op : Opcode) : String :=
  match op with
  | 0 => "READ_STATUS"
  | 1 => "READ_STACK_TRACE"
  | 2 => "ADD_BREAKPOINT"
  | 3 => "REMOVE_BREAKPOINT"
  | 4 => "REMOVE_ALL_BREAKPOINTS"
  | 5 => "RUN"
  | 6 => "STOP"
  | 7 => "SINGLE_STEP"
  | 8 => "READ_VARIABLE"
  | 9 => "WRITE_VARIABLE"
  | _ => "UNKNOWN"

end Opcode

/-- How a reply breaks the protocol. -/
inductive Fault where
  /-- Fewer than `width` bytes are left for a word. -/
  | shortWord (width : Nat)
  /-- Fewer bytes are left than a text declares. -/
  | shortText (expected got : Nat)
  /-- A text that is not UTF-8. -/
  | notText (fault : Utf8.Fault)
  /-- A reply without room for its header. -/
  | shortReply (size : Nat)
  /-- A reply that echoes another opcode. -/
  | wrongEcho (asked answered : Opcode)
  /-- A status reply without the status. -/
  | noStatus
  /-- A frame with another index than the one asked for. -/
  | wrongFrame (asked answered : UInt32)
  deriving DecidableEq, Repr

/-- The wording of a fault. -/
def Fault.message : Fault → String
  | .shortWord width => s!"Not enough data for u{8 * width}"
  | .shortText expected got => s!"Not enough data for string: expected {expected}, got {got}"
  | .notText fault => s!"Invalid UTF-8 in string: {fault.message}"
  | .shortReply size => s!"Reply too short: {size} bytes"
  | .wrongEcho asked answered => s!"Reply to {Opcode.name asked} echoes {Opcode.name answered}"
  | .noStatus => "Status reply has no payload"
  | .wrongFrame asked answered =>
    s!"Asked for frame {asked.toNat}, device answered frame {answered.toNat}"

end RemoteDebug.Wire
