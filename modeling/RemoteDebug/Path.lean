/-!
# Paths

A path is a text, and its names stand between slashes. It starts at the root if it starts with a
slash, and where the reader stands otherwise.
-/

namespace RemoteDebug.Path

/-- The most bytes in a name. -/
def nameLimit : Nat := 255

/-- The most bytes in a path. -/
def limit : Nat := 4095

/-- The path starts at the root. -/
def isAbsolute (path : String) : Bool := path.startsWith "/"

/-- The names along a path. Some of them may be empty. -/
def names (path : String) : List String := path.splitOn "/"

/-- A path below another one. An absolute path stands for itself. -/
def join (root path : String) : String :=
  if isAbsolute path ∨ root = "" then path
  else if root.endsWith "/" then root ++ path
  else root ++ "/" ++ path

/-- What follows the last dot of the last name. A dot at the start of a name does not count. -/
def extension? (path : String) : Option String :=
  match ((names path).getLast?.getD "").splitOn "." with
  | [] | [_] | ["", _] => none
  | parts => parts.getLast?

end RemoteDebug.Path
