import RemoteDebug.ClassFile.Basic
import RemoteDebug.Files

/-!
# The registry of loaded classes

Each class is registered under its name, with slashes between the parts, and under the path of the
source it was compiled from. Unless it is given, the path follows from the name (`sourcePath`). A
class that is registered again replaces the one of its name and moves to the end.
-/

namespace RemoteDebug

/-- A class and the source it was compiled from. -/
structure LoadedClass where
  name : String
  source : String
  file : ClassFile
  deriving DecidableEq, Repr

/-- The classes a debugger knows. -/
structure Registry where
  /-- The directory that holds the sources, if it is known. -/
  root : Option String
  classes : List LoadedClass
  deriving DecidableEq, Repr

namespace Registry

/-- A registry without classes. -/
def empty (root : Option String) : Registry := ⟨root, []⟩

/-- A class name with slashes between its parts. -/
def normalize (name : String) : String :=
  name.map fun c => if c = '\\' ∨ c = '.' then '/' else c

/-- The path of the source that holds a class. An inner class is in the source of the outermost
class around it, whose name ends at the first dollar sign. -/
def sourcePath (r : Registry) (name : String) : String :=
  let outer := String.ofList ((normalize name).toList.takeWhile (· ≠ '$'))
  let path := outer ++ ".java"
  match r.root with
  | some root => Path.join root path
  | none => path

/-- The entry under which a class is registered. -/
def entry (r : Registry) (file : ClassFile) (source : Option String) :
    Except ClassFile.Error LoadedClass := do
  let name ← file.thisName
  return ⟨normalize name, source.getD (r.sourcePath name), file⟩

/-- Register an entry in the place of the one of its name. -/
def put (r : Registry) (c : LoadedClass) : Registry :=
  { r with classes := r.classes.filter (·.name ≠ c.name) ++ [c] }

/-- Register a class. -/
def add (r : Registry) (file : ClassFile) (source : Option String) :
    Except ClassFile.Error Registry := do
  return r.put (← r.entry file source)

/-- Register the class that some bytes hold. -/
def addBytes (r : Registry) (bs : Bytes) : Except ClassFile.Error Registry := do
  r.add (← ClassFile.parse bs) none

/-- Register the class in a file. -/
def addFile (r : Registry) (files : Files) (path : String) : Except ClassFile.Error Registry :=
  match files.read path with
  | .ok bs => r.addBytes bs
  | .error fault => .error (.io fault)

/-- Register the classes in some files, given with their paths, and count the files that hold
one. -/
def addAll (r : Registry) : List (String × Bytes) → Registry × Nat
  | [] => (r, 0)
  | (path, bs) :: files =>
    if Path.extension? path = some "class" then
      match r.addBytes bs with
      | .ok r' =>
        let (r'', n) := r'.addAll files
        (r'', n + 1)
      | .error _ => r.addAll files
    else r.addAll files

/-- Register the class files at or below a path, with their count. Files that hold no class are
passed over. -/
def addFolder (r : Registry) (files : Files) (path : String) : Registry × Nat :=
  r.addAll (files.below path)

end Registry

end RemoteDebug
