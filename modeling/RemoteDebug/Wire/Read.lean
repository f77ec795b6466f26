import RemoteDebug.Wire.Fault

/-!
# Reading what the device sends

Programs of `Read` take words and texts off the front of a byte string. A failed read keeps what
the reads before it took : a word that is cut short takes nothing, a text that is cut short has
taken its two header words, and a text that is not UTF-8 has taken its bytes as well.
-/

namespace RemoteDebug.Wire

/-- Programs that read from the front of a byte string. -/
abbrev Read := ExceptT Fault (StateM Bytes)

namespace Read

/-- A word of `width` bytes, least significant byte first. -/
def word (width : Nat) : Read Nat := do
  let bs ← get
  if bs.length < width then
    throw (.shortWord width)
  else
    set (bs.drop width)
    return Bytes.littleEndian (bs.take width)

/-- A word of one byte. -/
def u8 : Read UInt8 := return UInt8.ofNat (← word 1)

/-- A word of two bytes. -/
def u16 : Read UInt16 := return UInt16.ofNat (← word 2)

/-- A word of four bytes. -/
def u32 : Read UInt32 := return UInt32.ofNat (← word 4)

/-- A text : its length, a word that says nothing, and its bytes. -/
def text : Read String := do
  let length ← u16
  let _ ← u16
  let bs ← get
  if bs.length < length.toNat then
    throw (.shortText length.toNat bs.length)
  else
    set (bs.drop length.toNat)
    match Utf8.decode (bs.take length.toNat) with
    | .ok s => return s
    | .error fault => throw (.notText fault)

/-- Pass over a zero byte, if there is one. -/
def terminator : Read Unit := do
  match ← get with
  | 0 :: bs => set bs
  | _ => return

end Read

end RemoteDebug.Wire
