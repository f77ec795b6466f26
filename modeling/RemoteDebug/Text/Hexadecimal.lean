/-!
# Hexadecimal numerals

A number in lower-case hexadecimal digits, padded with zeros to a width.
-/

namespace RemoteDebug.Hexadecimal

/-- The low `width` hexadecimal digits of `n`, most significant first. -/
def digits : (width : Nat) → Nat → List Char
  | 0, _ => []
  | w + 1, n => digits w (n / 16) ++ [Nat.digitChar (n % 16)]

/-- `digits` as a text. -/
def padded (width n : Nat) : String := String.ofList (digits width n)

end RemoteDebug.Hexadecimal
