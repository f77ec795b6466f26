/-!
# UTF-16 units

The device counts the characters of a text as UTF-16 units : one for a character below U+10000,
two for the others. `checksum` is the sum of the units modulo 2 ^ 16.
-/

namespace RemoteDebug.Units

/-- The UTF-16 units of a character. -/
def ofChar (c : Char) : List UInt16 :=
  let n := c.toNat
  if n < 0x10000 then [UInt16.ofNat n]
  else [UInt16.ofNat (0xD800 + (n - 0x10000) / 0x400), UInt16.ofNat (0xDC00 + n % 0x400)]

/-- The UTF-16 units of a text. -/
def ofString (s : String) : List UInt16 := s.toList.flatMap ofChar

/-- The sum of the units of a text, modulo 2 ^ 16. -/
def checksum (s : String) : UInt16 := (ofString s).foldl (· + ·) 0

end RemoteDebug.Units
