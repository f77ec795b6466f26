import RemoteDebug.Bytes.Endian
import RemoteDebug.Path

/-!
# Directories

A directory is a chain of entries, each a file with its content or a folder with a directory
inside, in order of name. `Directory.put` fills a directory path by path, `Directory.files` lists
the files in it and below it, depth first.
-/

namespace RemoteDebug

/-- The entries of a directory. -/
inductive Directory where
  | empty
  | file (name : String) (content : Bytes) (rest : Directory)
  | folder (name : String) (inside : Directory) (rest : Directory)
  deriving DecidableEq, Repr

namespace Directory

/-- What stands under a name. -/
inductive Item where
  | file (content : Bytes)
  | folder (inside : Directory)
  deriving DecidableEq, Repr

/-- Put an item in front of the other entries. -/
def Item.cons (name : String) : Item → Directory → Directory
  | .file content, rest => .file name content rest
  | .folder inside, rest => .folder name inside rest

/-- The item of a given name. -/
def get? (name : String) : Directory → Option Item
  | .empty => none
  | .file n content rest => if n = name then some (.file content) else rest.get? name
  | .folder n inside rest => if n = name then some (.folder inside) else rest.get? name

/-- Put an item in its place in the order of names, where it replaces an item of its name. -/
def insert (name : String) (item : Item) : Directory → Directory
  | .empty => item.cons name .empty
  | .file n content rest =>
    if n < name then .file n content (rest.insert name item)
    else if n = name then item.cons name rest
    else item.cons name (.file n content rest)
  | .folder n inside rest =>
    if n < name then .folder n inside (rest.insert name item)
    else if n = name then item.cons name rest
    else item.cons name (.folder n inside rest)

/-- Put an item under some names, and folders on the way to it. A folder that is there stays. -/
def write (item : Item) : List String → Directory → Directory
  | [], d => d
  | [name], d =>
    match item, d.get? name with
    | .folder _, some (.folder _) => d
    | _, _ => d.insert name item
  | name :: names, d =>
    let inside := match d.get? name with
      | some (.folder inside) => inside
      | _ => .empty
    d.insert name (.folder (write item names inside))

/-- The names of a place, reached from another place by one more name of a path. -/
def enter (place : List String) (name : String) : List String :=
  if name = "" ∨ name = "." then place
  else if name = ".." then place.dropLast
  else place ++ [name]

/-- Put an item where the names of a path lead from a place, and folders on the way. -/
def putFrom (item : Item) (place : List String) : List String → Directory → Directory
  | [], d => d
  | [name], d => d.write item (enter place name)
  | name :: names, d =>
    putFrom item (enter place name) names (d.write (.folder .empty) (enter place name))

/-- Put an item at a path, and folders on the way to it. -/
def put (item : Item) (path : String) (d : Directory) : Directory :=
  d.putFrom item [] (Path.names path)

/-- The files of a directory at a path and of the folders below it, with their paths, depth
first. -/
def files (path : String) : Directory → List (String × Bytes)
  | .empty => []
  | .file name content rest => (Path.join path name, content) :: rest.files path
  | .folder name inside rest => inside.files (Path.join path name) ++ rest.files path

end Directory

end RemoteDebug
