import RemoteDebug.Directory
import RemoteDebug.Fault

/-!
# Files as a program sees them

`Files` is what a program sees of the files around it : what each path leads to, or the fault that
the host reports. `Directory.find` says it for a program that runs at a place below a root.
-/

namespace RemoteDebug

/-- What paths lead to. -/
structure Files where
  find : String → Except Fault Directory.Item

namespace Files

/-- No path leads anywhere. -/
def empty : Files := ⟨fun _ => .error .notFound⟩

/-- The content of the file at a path. -/
def read (files : Files) (path : String) : Except Fault Bytes := do
  match ← files.find path with
  | .file content => return content
  | .folder _ => throw .isDirectory

/-- A path leads to a folder. -/
def isFolder (files : Files) (path : String) : Bool :=
  match files.find path with
  | .ok (.folder _) => true
  | _ => false

/-- The files at or below a path, with their paths. Nothing is at a path that leads nowhere, and
what has too long a path cannot be read. -/
def below (files : Files) (path : String) : List (String × Bytes) :=
  match files.find path with
  | .ok (.file content) => [(path, content)]
  | .ok (.folder inside) => (inside.files path).filter (·.1.utf8ByteSize ≤ Path.limit)
  | .error _ => []

end Files

namespace Directory

/-- Follow names from a directory, with the directories passed on the way at hand. There is no
way up from the root. -/
def follow (above : List Directory) (here : Directory) : List String → Except Fault Item
  | [] => .ok (.folder here)
  | name :: path =>
    if name = "" ∨ name = "." then follow above here path
    else if name = ".." then
      match above with
      | [] => follow [] here path
      | up :: above => follow above up path
    else if Path.nameLimit < name.utf8ByteSize then .error .nameTooLong
    else
      match here.get? name with
      | none => .error .notFound
      | some (.folder inside) => follow (here :: above) inside path
      | some (.file content) => if path = [] then .ok (.file content) else .error .notDirectory

/-- What a path leads to for a program that runs at a place below a root. The empty path leads
nowhere. -/
def find (root : Directory) (place : List String) (path : String) : Except Fault Item :=
  if path.contains '\x00' then .error .zeroInPath
  else if path = "" then .error .notFound
  else if Path.limit < path.utf8ByteSize then .error .nameTooLong
  else if Path.isAbsolute path then follow [] root (Path.names path)
  else follow [] root (place ++ Path.names path)

end Directory

end RemoteDebug
