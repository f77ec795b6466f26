import RemoteDebug.Failure
import RemoteDebug.Session.Basic
import RemoteDebug.Text.Quoted

/-!
# Messages of the front end

A front end talks in lines of JSON. A `Request` has an identifier of the user's choice, a command
and arguments, a `Response` echoes the identifier and says what came of it. `Complaint` has one
constructor for each way in which a request fails. What cannot be taken for a request or for its
arguments is a `Misfit`.
-/

namespace RemoteDebug

/-- A request of the user. -/
structure Request where
  id : Json
  command : String
  arguments : Json

/-- The deepest nesting of arrays and objects in a request. -/
def Request.maxDepth : Nat := 127

/-- The request that a text is. The arguments may be missing. -/
def Request.ofString? (s : String) : Option Request := do
  let shape ← Json.Shape.ofString? s
  match ← shape.fields? ["id", "command", "arguments"] with
  | [some id, some command, arguments] =>
    let value (shape : Json.Shape) : Option Json := shape.value? (Request.maxDepth - 1)
    let arguments ← match arguments with
      | some shape => value shape
      | none => some .null
    return ⟨← value id, ← command.text?, arguments⟩
  | _ => none

/-- What is wrong with a line or with arguments. -/
inductive Misfit where
  /-- A text stands where something else should. -/
  | text (s : String)
  | other
  deriving DecidableEq, Repr

/-- The wording of a misfit. -/
def Misfit.message : Misfit → String
  | .text s => s!"invalid type: string {Quoted.shown s}"
  | .other => "not of the right shape"

/-- What is wrong with a line that is not a request. -/
def Request.misfit (s : String) : Misfit :=
  match Json.leadingText? s with
  | some t => .text t
  | none => .other

/-- Why a request fails. -/
inductive Complaint where
  /-- The line is not a request. -/
  | invalidRequest (misfit : Misfit)
  | unknownCommand (command : String)
  /-- The arguments are not those of the command. -/
  | invalidArguments (misfit : Misfit)
  | loadFailed (path : String) (error : ClassFile.Error)
  | connectFailed (failure : Failure)
  | failed (failure : Failure)
  deriving DecidableEq, Repr

/-- The wording of a complaint. -/
def Complaint.message : Complaint → String
  | .invalidRequest misfit => s!"Invalid request: {misfit.message}"
  | .unknownCommand command => s!"Unknown command: {command}"
  | .invalidArguments misfit => s!"Invalid arguments: {misfit.message}"
  | .loadFailed path error => s!"Failed to load {path}: {error.message}"
  | .connectFailed failure => s!"Failed to connect: {failure.message}"
  | .failed failure => failure.message

/-- What came of a request : a body, which may be nothing, or a complaint. -/
structure Response where
  id : Json
  result : Except Complaint (Option Json)

namespace Response

/-- A response as JSON. -/
def json (r : Response) : Json :=
  match r.result with
  | .ok none => .object [("id", r.id), ("success", .bool true)]
  | .ok (some body) => .object [("id", r.id), ("success", .bool true), ("body", body)]
  | .error complaint =>
    .object [("id", r.id), ("success", .bool false), ("message", .string complaint.message)]

/-- The line of text that gives a response. -/
def line (r : Response) : String := r.json.render

end Response

end RemoteDebug
