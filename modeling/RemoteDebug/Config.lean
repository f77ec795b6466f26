import RemoteDebug.Files
import RemoteDebug.Json.Shape
import RemoteDebug.Text.Utf8

/-!
# Configuration

A configuration is read from JSON, where every field has a default, and its endpoint can be
overridden. `Config.check` refuses waiting times and limits of zero, in a fixed order. A
configuration that passes is `Config.Valid`, and only such a one runs a session.
-/

namespace RemoteDebug

/-- How to reach a device and how long to wait for it. Times are in milliseconds. -/
structure Config where
  host : String := "127.0.0.1"
  port : UInt16 := 5555
  /-- The longest wait for a reply. -/
  responseTimeout : UInt64 := 100
  /-- The time between two status polls. -/
  statusPoll : UInt64 := 100
  /-- The time between two looks at the status while waiting for a stop. -/
  stopPoll : UInt64 := 50
  /-- The number of instructions after which stepping off a line is given up. -/
  maxSteps : UInt32 := 10000
  /-- The directory that holds the sources. -/
  sourceRoot : Option String := none
  deriving DecidableEq, Repr

namespace Config

/-- Why there is no configuration. -/
inductive Fault where
  /-- The text is not JSON, or not a configuration. -/
  | malformed
  | unreadable (path : String) (fault : RemoteDebug.Fault)
  | badPort (text : String)
  | zeroTimeout
  | zeroPoll
  | zeroSteps
  deriving DecidableEq, Repr

/-- The wording of a fault. -/
def Fault.message : Fault → String
  | .malformed => "Invalid config: not a configuration"
  | .unreadable path fault => s!"Cannot read {path}: {fault.message}"
  | .badPort text => s!"Invalid port: {text}"
  | .zeroTimeout => "response_timeout_ms must be > 0"
  | .zeroPoll => "poll intervals must be > 0"
  | .zeroSteps => "max_step_instructions must be > 0"

/-- Check that no time and no limit is zero. -/
def check (c : Config) : Except Fault Unit :=
  if c.responseTimeout = 0 then .error .zeroTimeout
  else if c.statusPoll = 0 ∨ c.stopPoll = 0 then .error .zeroPoll
  else if c.maxSteps = 0 then .error .zeroSteps
  else .ok ()

/-- The configuration passes the check. -/
def Valid (c : Config) : Prop := c.check = .ok ()

theorem valid_iff {c : Config} : c.Valid ↔
    c.responseTimeout ≠ 0 ∧ c.statusPoll ≠ 0 ∧ c.stopPoll ≠ 0 ∧ c.maxSteps ≠ 0 := by
  unfold Valid check
  by_cases h₁ : c.responseTimeout = 0 <;> by_cases h₂ : c.statusPoll = 0 <;>
    by_cases h₃ : c.stopPoll = 0 <;> by_cases h₄ : c.maxSteps = 0 <;> simp [h₁, h₂, h₃, h₄]

instance (c : Config) : Decidable c.Valid := decidable_of_iff _ valid_iff.symm

theorem valid_default : Valid {} := by
  decide

/-- The names of the fields, in the order in which an array gives them. -/
def fieldNames : List String :=
  ["host", "port", "response_timeout_ms", "status_poll_interval_ms", "stop_poll_interval_ms",
    "max_step_instructions", "source_root"]

/-- A field that is a natural number below a bound, or its default when it is missing. -/
def number? (bound default : Nat) : Option Json.Shape → Option Nat
  | none => some default
  | some shape => shape.natural?.filter (· < bound)

/-- The configuration that a shape is. -/
def ofShape? (shape : Json.Shape) : Option Config := do
  let d : Config := {}
  match ← shape.fields? fieldNames with
  | [host, port, responseTimeout, statusPoll, stopPoll, maxSteps, sourceRoot] =>
    let host ← match host with
      | none => some d.host
      | some shape => shape.text?
    let sourceRoot ← match sourceRoot with
      | none | some .null => some none
      | some shape => some <$> shape.text?
    return {
      host, sourceRoot
      port := UInt16.ofNat (← number? UInt16.size d.port.toNat port)
      responseTimeout :=
        UInt64.ofNat (← number? UInt64.size d.responseTimeout.toNat responseTimeout)
      statusPoll := UInt64.ofNat (← number? UInt64.size d.statusPoll.toNat statusPoll)
      stopPoll := UInt64.ofNat (← number? UInt64.size d.stopPoll.toNat stopPoll)
      maxSteps := UInt32.ofNat (← number? UInt32.size d.maxSteps.toNat maxSteps) }
  | _ => none

/-- The configuration in a JSON text. -/
def ofString (s : String) : Except Fault Config :=
  match (Json.Shape.ofString? s).bind ofShape? with
  | none => .error .malformed
  | some c => do
    c.check
    return c

/-- The text of the file at a path. -/
def readText (files : Files) (path : String) : Except RemoteDebug.Fault String := do
  match Utf8.decode (← files.read path) with
  | .ok s => return s
  | .error _ => throw .notText

/-- The configuration in a file. -/
def ofFile (files : Files) (path : String) : Except Fault Config :=
  match readText files path with
  | .ok s => ofString s
  | .error fault => .error (.unreadable path fault)

/-- The port that a text is : digits after an optional plus sign, below 2 ^ 16. -/
def port? (s : String) : Option UInt16 :=
  let ds := match s.toList with
    | '+' :: ds => ds
    | ds => ds
  if ds ≠ [] ∧ ds.all Char.isDigit then
    let n := ds.foldl (fun n c => n * 10 + (c.toNat - '0'.toNat)) 0
    if n < UInt16.size then some (UInt16.ofNat n) else none
  else none

/-- The configuration with another host. -/
def withHost (c : Config) : Option String → Config
  | some host => { c with host }
  | none => c

/-- The configuration with another port, given as a text. -/
def withPort (c : Config) : Option String → Except Fault Config
  | some s =>
    match port? s with
    | some port => .ok { c with port }
    | none => .error (.badPort s)
  | none => .ok c

end Config

end RemoteDebug
