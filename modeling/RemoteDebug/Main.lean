import RemoteDebug.Frontend.CommandLine
import RemoteDebug.Live
import Std.Sync.Channel

/-!
# The program

The program answers the lines of its standard input on its standard output, in one session with one
device, and reports the events of the session between the answers. It ends with its input.
-/

namespace RemoteDebug

/-- What a path leads to at the moment. Of a folder only class files are kept, and links in it are
not followed. -/
partial def itemAt (path : String) : IO Directory.Item := do
  let place ← IO.FS.realPath path
  if ← place.isDir then
    let mut inside := Directory.empty
    for entry in ← place.readDir do
      try
        let kind := (← entry.path.symlinkMetadata).type
        if kind == .dir || kind == .file && Path.extension? entry.fileName == some "class" then
          inside := inside.insert entry.fileName (← itemAt entry.path.toString)
      catch _ => pure ()
    return .folder inside
  else return .file (← IO.FS.readBinFile path).toList

/-- What can be seen of the files of the host through one path. -/
def filesAt (path : String) : IO Files := do
  let item ←
    if path.contains '\x00' then pure (.error .zeroInPath)
    else if path = "" then pure (.error .notFound)
    else try Except.ok <$> itemAt path catch e => pure (.error (Fault.ofHost e))
  return ⟨fun _ => item⟩

/-- What can be seen of the files of the host through a path, if there is one. -/
def filesAt? : Option String → IO Files
  | some path => filesAt path
  | none => return .empty

/-- What the program was started with. -/
def invocation (arguments : List String) : IO CommandLine.Invocation := do
  let environment ← CommandLine.variableNames.filterMapM fun name => do
    return (← IO.getEnv name).map (name, ·)
  return ⟨arguments, environment⟩

/-- Read the bytes of a line, after some of them, and whether the input goes on. -/
partial def readLine (input : IO.FS.Stream) (line : ByteArray) : IO (ByteArray × Bool) := do
  match (← input.read 1).toList with
  | [] => return (line, false)
  | b :: _ => if b = 0x0A then return (line, true) else readLine input (line.push b)

/-- Read lines into a channel, and nothing after the last of them. A line that is not a text ends
the input. -/
partial def readLines (input : IO.FS.Stream) (lines : Std.Channel (Option String)) : IO Unit := do
  let (line, more) ← try readLine input ByteArray.empty catch _ => pure (ByteArray.empty, false)
  match Utf8.decode line.toList with
  | .ok s =>
    let _ ← lines.send (some s)
    if more then readLines input lines else let _ ← lines.send none
  | .error _ => let _ ← lines.send none

/-- Write a line. -/
def say (output : IO.FS.Stream) (line : String) : IO Unit := do
  output.putStrLn line
  output.flush

/-- Answer lines and report events, until there are no more lines. -/
partial def serve (live : Live) (lines : Std.Channel (Option String)) (output : IO.FS.Stream) :
    IO Unit := do
  match ← live.wait (some lines.recvSelector) (fun w => !w.mailbox.events.isEmpty) none with
  | none =>
    for event in ← live.events do say output event.line
    serve live lines output
  | some (some line) =>
    if let some program := Frontend.respond? (← filesAt? (Frontend.pathRead? line)) line then
      say output (← live.run program).line
    serve live lines output
  | some none => return

end RemoteDebug

open RemoteDebug in
/-- Run the program. -/
def main (arguments : List String) : IO UInt32 := do
  let i ← invocation arguments
  match i.config (← filesAt? i.configPath) with
  | .error refusal =>
    (← IO.getStderr).putStrLn s!"Error: {refusal.message}"
    return 1
  | .ok ⟨config, valid⟩ =>
    let live ← Live.new (Session.new config valid)
    let lines ← Std.Channel.new
    let input ← IO.getStdin
    let _ ← IO.asTask (readLines input lines) Task.Priority.dedicated
    serve live lines (← IO.getStdout)
    let _ ← live.run (ExceptT.run Op.disconnect)
    return 0
