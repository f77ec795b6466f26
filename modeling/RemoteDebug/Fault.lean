/-!
# Faults of the host

The faults that files and connections report, each with the text the host gives it.
-/

namespace RemoteDebug

/-- A fault reported by the host. -/
inductive Fault where
  /-- No entry of that name. -/
  | notFound
  /-- A directory where a file is read. -/
  | isDirectory
  /-- A file where a directory is entered. -/
  | notDirectory
  /-- A path with a zero byte. -/
  | zeroInPath
  /-- A name or a path longer than the host allows. -/
  | nameTooLong
  /-- A text file with bytes that are not UTF-8. -/
  | notText
  /-- No route to the device. -/
  | unreachable
  /-- The peer dropped the connection without closing it. -/
  | reset
  /-- Nobody listens at the address. -/
  | refused
  /-- A fault with a text of its own. -/
  | other (text : String)
  deriving DecidableEq, Repr

/-- The host's wording of a fault. -/
def Fault.message : Fault → String
  | .notFound => "No such file or directory (os error 2)"
  | .notDirectory => "Not a directory (os error 20)"
  | .isDirectory => "Is a directory (os error 21)"
  | .zeroInPath => "file name contained an unexpected NUL byte"
  | .nameTooLong => "File name too long (os error 36)"
  | .notText => "stream did not contain valid UTF-8"
  | .unreachable => "Network is unreachable (os error 101)"
  | .reset => "Connection reset by peer (os error 104)"
  | .refused => "Connection refused (os error 111)"
  | .other text => text

end RemoteDebug
