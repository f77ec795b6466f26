import RemoteDebug.Text.Blank

/-!
# Texts shown in quotes

A text that a message shows stands in quotes, with escapes for the quotes in it and for the
control characters and blanks that a reader could not make out. All other characters stand for
themselves.
-/

namespace RemoteDebug.Quoted

/-- The character is a control character, or a blank other than a space. -/
def isHidden (c : Char) : Bool :=
  c.toNat < 0x20 || (0x7F ≤ c.toNat && c.toNat ≤ 0x9F) || (c != ' ' && Blank.isBlank c)

/-- The way a character is shown. -/
def escape (c : Char) : List Char :=
  match c with
  | '"' => ['\\', '"']
  | '\\' => ['\\', '\\']
  | '\n' => ['\\', 'n']
  | '\r' => ['\\', 'r']
  | '\t' => ['\\', 't']
  | '\x00' => ['\\', '0']
  | c => if isHidden c then ['\\', 'u', '\x7b'] ++ Nat.toDigits 16 c.toNat ++ ['\x7d'] else [c]

/-- A text in quotes. -/
def shown (s : String) : String :=
  String.ofList ('"' :: s.toList.flatMap escape ++ ['"'])

end RemoteDebug.Quoted
