import RemoteDebug.Frontend.Handler
import RemoteDebug.Simulation.World

/-!
# The command line

The program takes its configuration from a file, if its first argument or a variable of the
environment names one, and its endpoint from the environment, if that is set there. Then it answers
the lines of its input. A line that is not UTF-8 ends the input.
-/

namespace RemoteDebug.CommandLine

/-- What a program is started with. -/
structure Invocation where
  arguments : List String
  environment : List (String × String)

/-- Why the program does not start. -/
inductive Refusal where
  | configFile (path : String)
  | config (fault : Config.Fault)
  deriving DecidableEq, Repr

/-- The wording of a refusal. -/
def Refusal.message : Refusal → String
  | .configFile path => s!"Failed to load config from {path}"
  | .config fault => (Failure.config fault).message

/-- The variable that names the configuration file. -/
def configVariable : String := "MJVM_DEBUG_CONFIG"

/-- The variable that overrides the host. -/
def hostVariable : String := "MJVM_DEBUG_HOST"

/-- The variable that overrides the port. -/
def portVariable : String := "MJVM_DEBUG_PORT"

/-- The variables that matter. -/
def variableNames : List String := [configVariable, hostVariable, portVariable]

/-- The path of the configuration file, if one is named. -/
def Invocation.configPath (i : Invocation) : Option String :=
  match i.arguments with
  | path :: _ => some path
  | [] => i.environment.lookup configVariable

/-- The configuration to start with. -/
def Invocation.config (i : Invocation) (files : Files) :
    Except Refusal { c : Config // c.Valid } := do
  let c ← match i.configPath with
    | some path => (Config.ofFile files path).mapError fun _ => .configFile path
    | none => pure {}
  let c := c.withHost (i.environment.lookup hostVariable)
  let c ← (c.withPort (i.environment.lookup portVariable)).mapError .config
  match h : c.check with
  | .ok () => return ⟨c, h⟩
  | .error fault => throw (.config fault)

/-- The lines of an input, each without its end. The last line need not have one. -/
def splitLines (input : Bytes) : List Bytes :=
  input.foldr (fun b lines =>
    if b = 0x0A then [] :: lines
    else
      match lines with
      | [] => [[b]]
      | line :: lines => (b :: line) :: lines) []

/-- The lines of an input as texts, up to the first that is not UTF-8. -/
def textLines (input : Bytes) : List String :=
  go (splitLines input)
where
  /-- The texts of some lines. -/
  go : List Bytes → List String
    | [] => []
    | line :: lines =>
      match Utf8.decode line with
      | .ok s => s :: go lines
      | .error _ => []

/-- What goes out for a line : the response, and the events that came in until then. -/
structure Output where
  response : Response
  events : List Event

/-- The lines of text that give an output. Events follow the response they came with. -/
def Output.lines (o : Output) : List String :=
  o.response.line :: o.events.map Event.line

/-- Answer a line : what goes out unless the line is blank, and the world after it. -/
def answer (files : Files) (w : World) (line : String) : Option Output × World :=
  match Frontend.respond? files line with
  | none => (none, w)
  | some program =>
    let (response, w) := w.run program
    (some ⟨response, w.mailbox.events⟩, { w with mailbox := Mailbox.empty })

/-- Answer some lines, with what goes out for each. -/
def outputs (files : Files) (w : World) : List String → List (Option Output)
  | [] => []
  | line :: lines =>
    let (out, w) := answer files w line
    out :: outputs files w lines

/-- Answer some lines, with the lines of text that go out for each. -/
def answerAll (files : Files) (w : World) (lines : List String) : List (List String) :=
  (outputs files w lines).map fun out => out.elim [] Output.lines

/-- Run the program on some lines. -/
def run (i : Invocation) (files : Files) (network : Network) (device : Device)
    (lines : List String) : Except Refusal (List (List String)) := do
  let ⟨c, h⟩ ← i.config files
  return answerAll files (World.new (Session.new c h) network device) lines

end RemoteDebug.CommandLine
