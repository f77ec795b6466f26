import RemoteDebug.Frontend.Message
import RemoteDebug.Session.Breakpoints
import RemoteDebug.Session.Connection
import RemoteDebug.Session.Control
import RemoteDebug.Text.Blank

/-!
# Requests as programs

`Frontend.respond` is the program that answers a line. Each command is an operation of the session,
with its arguments taken from JSON and its result put into JSON. A line that is not a request, a
command that is not known and arguments of the wrong shape are answered without any act.
-/

namespace RemoteDebug.Frontend

/-! ## Bodies -/

/-- A stack frame as JSON. -/
def frameJson (f : StackFrame) : Json := .object [
  ("index", .nat f.index.toNat), ("pc", .nat f.pc.toNat), ("class_name", .string f.className),
  ("method_name", .string f.methodName), ("descriptor", .string f.descriptor),
  ("source_path", .string f.source), ("line", .nat f.line.toNat)]

/-- A location as JSON. -/
def locationJson (l : Location) : Json := .object [
  ("source_path", .string l.source), ("line", .nat l.line.toNat), ("pc", .nat l.pc.toNat),
  ("class_name", .string l.className), ("method_name", .string l.methodName),
  ("descriptor", .string l.descriptor)]

/-- The name of a state. Whether a halted device is on a breakpoint is told apart from it. -/
def stateName : DeviceState → String
  | .disconnected => "disconnected"
  | .running => "running"
  | .stopped _ => "stopped"

/-- What a session knows, as JSON. -/
def statusJson (s : Session) : Json := .object [
  ("state", .string (stateName s.deviceState)), ("stopped", .bool s.status.stopped),
  ("hitBreakpoint", .bool s.status.hit), ("singleStep", .bool s.status.singleStep),
  ("breakpoints", .nat s.breakpoints.length), ("classes", .nat s.registry.classes.length)]

/-- The outcome of a request for breakpoints, as JSON. -/
def updateJson (u : Op.Update) (breakpoints : List Location) : Json := .object [
  ("added", .nat u.added), ("removed", .nat u.removed),
  ("breakpoints", .array (breakpoints.map locationJson))]

/-! ## Arguments -/

/-- What is wrong with a value that stands where something else should. -/
def misfit : Json → Misfit
  | .string s => .text s
  | _ => .other

/-- The text that a value is. -/
def textIn : Json → Except Misfit String
  | .string s => .ok s
  | value => .error (misfit value)

/-- A line number. -/
def lineIn : Json → Except Misfit UInt32
  | .number (.natural n) => if n < UInt32.size then .ok (UInt32.ofNat n) else .error .other
  | value => .error (misfit value)

/-- Line numbers. -/
def lineListIn : Json → Except Misfit (List UInt32)
  | .array lines => lines.mapM lineIn
  | value => .error (misfit value)

/-- The path of a request to load classes. -/
def pathIn : Json → Except Misfit String
  | .object members => (members.lookup "path").elim (.error .other) textIn
  | .array [path] => textIn path
  | .array _ => .error .other
  | value => .error (misfit value)

/-- The source and the lines of a request for breakpoints. Without lines there are none. Named
arguments are read in order of name, so the lines come first. -/
def linesIn : Json → Except Misfit (String × List UInt32)
  | .object members => do
    let lines ← (members.lookup "lines").elim (.ok []) lineListIn
    return (← (members.lookup "source").elim (.error .other) textIn, lines)
  | .array [source] => return (← textIn source, [])
  | .array [source, lines] => return (← textIn source, ← lineListIn lines)
  | .array (source :: lines :: _) => do
    let _ ← textIn source
    let _ ← lineListIn lines
    throw .other
  | value => .error (misfit value)

/-! ## Commands -/

/-- The outcome of a command. -/
abbrev Answer := Except Complaint (Option Json)

/-- Run an operation and make a body of its value. -/
def withOp {α : Type} (op : Op α) (body : α → Session → Option Json) : Prog Answer :=
  op.run.bind fun
    | .ok a => .look fun s => .done (.ok (body a s))
    | .error failure => .done (.error (.failed failure))

/-- Load the classes at a path, which is a folder or a class file. -/
def loadClasses (files : Files) (path : String) : Prog Answer :=
  .look fun s =>
    let loaded : Except ClassFile.Error (Registry × Nat) :=
      if files.isFolder path then .ok (s.registry.addFolder files path)
      else (·, 1) <$> s.registry.addFile files path
    match loaded with
    | .ok (registry, n) =>
      .act (.loaded registry) (.done (.ok (some (.object [
        ("loaded", .nat n), ("classes", .nat registry.classes.length)]))))
    | .error error => .done (.error (.loadFailed path error))

/-- Connect to the device. -/
def connect : Prog Answer :=
  Op.connect.run.bind fun
    | .ok () => .look fun s => .done (.ok (some (statusJson s)))
    | .error failure => .done (.error (.connectFailed failure))

/-- Carry out a command. -/
def carryOut (files : Files) (command : String) (arguments : Json) : Prog Answer :=
  match command with
  | "loadClasses" =>
    match pathIn arguments with
    | .ok path => loadClasses files path
    | .error misfit => .done (.error (.invalidArguments misfit))
  | "connect" => connect
  | "disconnect" => withOp Op.disconnect fun _ _ => none
  | "continue" => withOp Op.resume fun _ _ => none
  | "pause" => withOp Op.stop fun _ _ => none
  | "stepIn" => withOp Op.stepIn fun frame _ => some (frameJson frame)
  | "setBreakpoints" =>
    match linesIn arguments with
    | .ok (source, lines) => withOp (Op.setBreakpoints lines source) fun update s =>
        some (updateJson update (s.breakpoints.filter (·.source == source)))
    | .error misfit => .done (.error (.invalidArguments misfit))
  | "removeAllBreakpoints" => withOp Op.removeAllBreakpoints fun _ _ => none
  | "stackTrace" => withOp Op.stackFrames fun frames _ => some (.object [
      ("stackFrames", .array (frames.map frameJson)), ("totalFrames", .nat frames.length)])
  | "status" => .look fun s => .done (.ok (some (statusJson s)))
  | other => .done (.error (.unknownCommand other))

/-- Answer a line. -/
def respond (files : Files) (line : String) : Prog Response :=
  let line := Blank.trim line
  match Request.ofString? line with
  | some r => (carryOut files r.command r.arguments).bind fun answer => .done ⟨r.id, answer⟩
  | none => .done ⟨.null, .error (.invalidRequest (Request.misfit line))⟩

/-- Answer a line unless it is blank. -/
def respond? (files : Files) (line : String) : Option (Prog Response) :=
  if Blank.trim line = "" then none else some (respond files line)

/-- The path that a line asks to load classes from. -/
def pathRead? (line : String) : Option String := do
  let r ← Request.ofString? (Blank.trim line)
  if r.command = "loadClasses" then (pathIn r.arguments).toOption else none

end RemoteDebug.Frontend
