import RemoteDebug.Files
import RemoteDebug.Text.Utf8

/-!
# A host around a directory

`Directory.view` is what a program sees that runs in a directory. The directory lies somewhere on a
host, among the folders and files that every host has, and a path that leaves it leads to them.
-/

namespace RemoteDebug

namespace Host

/-- The folders that every host has. -/
def folders : List String :=
  ["bin", "boot", "dev/pts", "dev/shm", "etc/opt", "home", "lib", "lib64", "media", "mnt", "opt",
    "proc/self", "proc/sys", "root", "run", "sbin", "srv", "sys", "tmp", "usr/bin", "usr/include",
    "usr/lib", "usr/lib64", "usr/local/bin", "usr/local/etc", "usr/local/include",
    "usr/local/lib", "usr/local/sbin", "usr/local/share", "usr/local/src", "usr/sbin",
    "usr/share", "usr/src", "var/cache", "var/lib", "var/local", "var/log", "var/mail", "var/opt",
    "var/spool", "var/tmp"]

/-- The files that every host has, with their texts : one for what is to be thrown away, and what
the host calls itself, its users and their groups. -/
def files : List (String × String) :=
  [("dev/null", ""), ("etc/group", "root:x:0:\n"), ("etc/hosts", "127.0.0.1\tlocalhost\n"),
    ("etc/passwd", "root:x:0:0:root:/root:/bin/bash\n")]

/-- What every host has. -/
def bare : Directory :=
  files.foldl (fun d (path, s) => d.put (.file (Utf8.encode s)) path)
    (folders.foldl (fun d path => d.put (.folder .empty) path) .empty)

/-- The names from the root to the place where a program runs. The program is not told the last
of them, so it has a character that no path has. -/
def place : List String := ["tmp", "\x00"]

/-- The root of a host on which a program runs in a directory. -/
def around (d : Directory) : Directory := bare.write (.folder d) place

/-- The path by which every host shows a program the place where it runs. -/
def here : String := "/proc/self/cwd"

/-- A path as it reads from the place where a program runs. -/
def fromHere (path : String) : String :=
  match path.splitOn here with
  | ["", rest] => if rest = "" ∨ Path.isAbsolute rest then "." ++ rest else path
  | _ => path

end Host

/-- What a program sees that runs in a directory. -/
def Directory.view (d : Directory) : Files :=
  ⟨fun path => (Host.around d).find Host.place (Host.fromHere path)⟩

end RemoteDebug
