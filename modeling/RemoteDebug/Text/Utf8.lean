import RemoteDebug.Bytes.Endian

/-!
# Reading UTF-8

`pieces` cuts a byte string into characters and faults : a fault is a longest run of bytes that
begins some character and cannot be completed, or a single byte that begins none. The two ways
of reading follow from it. `decode` takes only character pieces and otherwise reports the first
fault, `decodeLossy` puts U+FFFD in the place of each fault. `encode` writes a text.

The cutting is an automaton over single bytes (`State.step`), so it is one fold over the input.
A character of `n` bytes is a lead byte and `n - 1` continuation bytes. Only the first
continuation byte has a range that depends on the lead byte, which is what keeps overlong forms,
surrogates and numbers above U+10FFFF out.
-/

namespace RemoteDebug.Utf8

/-- One piece of a byte string read as UTF-8. -/
inductive Piece where
  /-- A character, with the number of bytes that encode it. -/
  | char (c : Char) (size : Nat)
  /-- Bytes that no later byte can complete to a character. -/
  | bad (size : Nat)
  /-- The input ends inside a character. -/
  | cut (size : Nat)
  deriving DecidableEq, Repr

/-- Number of bytes in the piece. -/
def Piece.size : Piece → Nat
  | .char _ n => n
  | .bad n => n
  | .cut n => n

/-- Where the reader stands. -/
inductive State where
  /-- Between characters. -/
  | start
  /-- Inside a character : `seen` bytes read, worth `value` so far, `missing + 1` bytes to come,
  the next of them between `low` and `high`. -/
  | within (seen value missing : Nat) (low high : UInt8)
  deriving DecidableEq, Repr

/-- Read a byte that begins a character : the pieces it completes and the state after it. -/
def lead (b : UInt8) : List Piece × State :=
  if b < 0x80 then ([.char (Char.ofNat b.toNat) 1], .start)
  else if b < 0xC2 then ([.bad 1], .start)
  else if b < 0xE0 then ([], .within 1 (b.toNat - 0xC0) 0 0x80 0xBF)
  else if b = 0xE0 then ([], .within 1 0 1 0xA0 0xBF)
  else if b = 0xED then ([], .within 1 0xD 1 0x80 0x9F)
  else if b < 0xF0 then ([], .within 1 (b.toNat - 0xE0) 1 0x80 0xBF)
  else if b = 0xF0 then ([], .within 1 0 2 0x90 0xBF)
  else if b < 0xF4 then ([], .within 1 (b.toNat - 0xF0) 2 0x80 0xBF)
  else if b = 0xF4 then ([], .within 1 4 2 0x80 0x8F)
  else ([.bad 1], .start)

/-- Read one byte. A byte that cannot continue the character under way ends it as a fault and
is read again as a lead byte. -/
def State.step : State → UInt8 → List Piece × State
  | .start, b => lead b
  | .within seen value missing low high, b =>
    if low ≤ b ∧ b ≤ high then
      let value := value * 64 + (b.toNat - 0x80)
      match missing with
      | 0 => ([.char (Char.ofNat value) (seen + 1)], .start)
      | m + 1 => ([], .within (seen + 1) value m 0x80 0xBF)
    else
      let (ps, s) := lead b
      (.bad seen :: ps, s)

/-- The piece left over at the end of the input. -/
def State.finish : State → List Piece
  | .start => []
  | .within seen _ _ _ _ => [.cut seen]

/-- The pieces of the input from a state on. -/
def piecesFrom : State → Bytes → List Piece
  | s, [] => s.finish
  | s, b :: bs => (s.step b).1 ++ piecesFrom (s.step b).2 bs

/-- The pieces of a byte string. -/
def pieces (bs : Bytes) : List Piece := piecesFrom .start bs

/-- Why a byte string is not UTF-8. -/
structure Fault where
  /-- Number of bytes before the fault, all of them good. -/
  validUpTo : Nat
  /-- Length of the faulty run, or nothing when the input ends inside a character. -/
  length : Option Nat
  deriving DecidableEq, Repr

/-- The wording of a fault. -/
def Fault.message (f : Fault) : String :=
  match f.length with
  | some n => s!"invalid utf-8 sequence of {n} bytes from index {f.validUpTo}"
  | none => s!"incomplete utf-8 byte sequence from index {f.validUpTo}"

/-- The characters of a list of pieces that starts at byte `start`, or the first fault. -/
def charsFrom (start : Nat) : List Piece → Except Fault (List Char)
  | [] => .ok []
  | .char c n :: ps => (c :: ·) <$> charsFrom (start + n) ps
  | .bad n :: _ => .error ⟨start, some n⟩
  | .cut _ :: _ => .error ⟨start, none⟩

/-- The text a byte string encodes, or its first fault. -/
def decode (bs : Bytes) : Except Fault String :=
  String.ofList <$> charsFrom 0 (pieces bs)

/-- The character that stands for a piece in a lossy reading. -/
def Piece.shown : Piece → Char
  | .char c _ => c
  | .bad _ => '\uFFFD'
  | .cut _ => '\uFFFD'

/-- The text a byte string encodes, with U+FFFD for each fault. -/
def decodeLossy (bs : Bytes) : String :=
  String.ofList ((pieces bs).map Piece.shown)

/-- The bytes of a text. -/
def encode (s : String) : Bytes :=
  s.toList.flatMap String.utf8EncodeChar

end RemoteDebug.Utf8
