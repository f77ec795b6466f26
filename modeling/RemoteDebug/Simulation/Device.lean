import RemoteDebug.Session.Prog
import RemoteDebug.Wire.Frame

/-!
# A scripted device

A device that answers requests from a small state of its own : its status, the instruction it
stands at and the method that is in. A script lays down for each opcode what it does with the next
requests, and unless it is told otherwise it answers all others as a device does.
-/

namespace RemoteDebug

open Wire (Opcode)

mutual

/-- A new value for a part of a device. -/
inductive Setting where
  | status (bits : UInt8)
  | pc (pc : UInt32)
  | className (name : String)
  | methodName (name : String)
  | descriptor (descriptor : String)
  | terminated (terminated : Bool)
  | steps (steps : List Step)
  | script (op : Opcode) (actions : List Action)

/-- What an instruction does to a device. -/
inductive Step where
  | goto (pc : UInt32)
  | change (settings : List Setting)

/-- What a device does with a request. Replies come `after` some milliseconds. -/
inductive Action where
  /-- Change, then answer as a device does. -/
  | answer (settings : List Setting) (after : Nat)
  /-- Reply with a status byte alone. -/
  | code (status : UInt8) (after : Nat)
  /-- Reply with some bytes. -/
  | raw (bytes : Bytes) (after : Nat)
  | silent
  | close
  | reset

end

/-- A scripted device. -/
structure Device where
  status : UInt8 := 3
  pc : UInt32 := 0
  className : String := "demo/Blink"
  methodName : String := "main"
  descriptor : String := "([Ljava/lang/String;)V"
  /-- The device writes a zero byte after each text. -/
  terminated : Bool := true
  /-- What the next instructions do. After the last of them the device stands still. -/
  steps : List Step := []
  /-- What the device does with the next requests of an opcode. -/
  script : List (Opcode × List Action) := []
  /-- What the device does with a request that the script says nothing about. -/
  otherwise : Action := .answer [] 0

/-- What a session sees of the device after a request. -/
inductive Reaction where
  | reply (bytes : Bytes) (after : Nat)
  | silence
  | close
  | reset
  deriving DecidableEq, Repr

namespace Device

/-- Change a part of the device. A script for an opcode replaces the one it had. -/
def set (d : Device) : Setting → Device
  | .status status => { d with status }
  | .pc pc => { d with pc }
  | .className className => { d with className }
  | .methodName methodName => { d with methodName }
  | .descriptor descriptor => { d with descriptor }
  | .terminated terminated => { d with terminated }
  | .steps steps => { d with steps }
  | .script op actions => { d with script := (op, actions) :: d.script.filter (·.1 != op) }

/-- Change some parts of the device. -/
def setAll (d : Device) (settings : List Setting) : Device := settings.foldl set d

/-- Take the next action of the script for an opcode. -/
def nextAction (d : Device) (op : Opcode) : Device × Action :=
  match d.script.lookup op with
  | some (action :: actions) => (d.set (.script op actions), action)
  | _ => (d, d.otherwise)

/-- Execute one instruction. -/
def execute (d : Device) : Device :=
  match d.steps with
  | [] => d
  | .goto pc :: steps => { d with pc, steps }
  | .change settings :: steps => { d with steps }.setAll settings

/-- The frame that executes, under the index that a request names. -/
def frame (d : Device) (request : Bytes) : Wire.Frame where
  index := UInt32.ofNat (Bytes.littleEndian ((request.drop 1).take 4))
  pc := d.pc
  className := d.className
  methodName := d.methodName
  descriptor := d.descriptor

/-- Answer a request as a device does. -/
def answer (d : Device) (op : Opcode) (request : Bytes) : Device × Bytes :=
  if op = Opcode.readStatus then (d, [op, 0, d.status])
  else if op = Opcode.readStackTrace then
    (d, op :: 0 :: (d.frame request).encode d.terminated 0 0 0)
  else if op = Opcode.run then ({ d with status := 0 }, [op, 0])
  else if op = Opcode.stop then ({ d with status := d.status ||| Status.stopBit }, [op, 0])
  else if op = Opcode.singleStep then (d.execute, [op, 0])
  else (d, [op, 0])

/-- A reply, which is none when it has no bytes. -/
def replying (bytes : Bytes) (after : Nat) : Reaction :=
  if bytes = [] then .silence else .reply bytes after

/-- React to a request. One without bytes does not reach the device. -/
def react (d : Device) (request : Bytes) : Device × Reaction :=
  match request with
  | [] => (d, .silence)
  | op :: _ =>
    match d.nextAction op with
    | (d, .answer settings after) =>
      let (d, bytes) := (d.setAll settings).answer op request
      (d, .reply bytes after)
    | (d, .code status after) => (d, .reply [op, status] after)
    | (d, .raw bytes after) => (d, replying bytes after)
    | (d, .silent) => (d, .silence)
    | (d, .close) => (d, .close)
    | (d, .reset) => (d, .reset)

end Device

end RemoteDebug
