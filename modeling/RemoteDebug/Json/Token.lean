import RemoteDebug.Json.Value

/-!
# Tokens of JSON

`tokens?` cuts a text into punctuation, quoted texts and words, a word being a run of any other
characters. The cutting is an automaton over single characters (`Mode.step`).

A quoted text is kept as `Piece`s, since an escape may name half of a surrogate pair.
`Piece.join?` puts the halves together, and there is no text when one of them stands alone.
-/

namespace RemoteDebug.Json

/-- A piece of a quoted text : a character, or a UTF-16 unit that an escape names. -/
inductive Piece where
  | char (c : Char)
  | unit (n : Nat)
  deriving DecidableEq, Repr

/-- The characters that pieces stand for. -/
def Piece.join? : List Piece → Option (List Char)
  | [] => some []
  | .char c :: ps => (c :: ·) <$> Piece.join? ps
  | .unit n :: ps =>
    if n < 0xD800 ∨ 0xDFFF < n then (Char.ofNat n :: ·) <$> Piece.join? ps
    else
      match ps with
      | .unit m :: ps =>
        if n < 0xDC00 ∧ 0xDC00 ≤ m ∧ m ≤ 0xDFFF then
          (Char.ofNat (0x10000 + (n - 0xD800) * 0x400 + (m - 0xDC00)) :: ·) <$> Piece.join? ps
        else none
      | _ => none

/-- A token. -/
inductive Token where
  | openArray | closeArray | openObject | closeObject | comma | colon
  | word (cs : List Char)
  | quoted (pieces : List Piece)
  deriving DecidableEq, Repr

/-- The token that a character is by itself. -/
def Token.ofChar? (c : Char) : Option Token :=
  if c = '[' then some .openArray
  else if c = ']' then some .closeArray
  else if c = '\x7b' then some .openObject
  else if c = '\x7d' then some .closeObject
  else if c = ',' then some .comma
  else if c = ':' then some .colon
  else none

/-- The character may stand between tokens. -/
def isSpace (c : Char) : Bool := c == ' ' || c == '\t' || c == '\n' || c == '\r'

/-- The value of a hexadecimal digit. -/
def hexDigit? (c : Char) : Option Nat :=
  if '0' ≤ c ∧ c ≤ '9' then some (c.toNat - '0'.toNat)
  else if 'a' ≤ c ∧ c ≤ 'f' then some (c.toNat - 'a'.toNat + 10)
  else if 'A' ≤ c ∧ c ≤ 'F' then some (c.toNat - 'A'.toNat + 10)
  else none

/-- The character that an escape of one letter stands for. -/
def unescape? (c : Char) : Option Char :=
  match c with
  | '"' => some '"'
  | '\\' => some '\\'
  | '/' => some '/'
  | 'b' => some '\x08'
  | 'f' => some '\x0c'
  | 'n' => some '\n'
  | 'r' => some '\r'
  | 't' => some '\t'
  | _ => none

/-- Where the reader stands. What is under way is kept last part first. -/
inductive Mode where
  | between
  | word (read : List Char)
  | quoted (read : List Piece)
  /-- After a backslash. -/
  | escape (read : List Piece)
  /-- Inside a numeric escape worth `value` so far, with `missing + 1` digits to come. -/
  | code (read : List Piece) (value missing : Nat)
  deriving DecidableEq, Repr

/-- Read a character that no word is under way for. -/
def Mode.begin (c : Char) : List Token × Mode :=
  if isSpace c then ([], .between)
  else if c = '"' then ([], .quoted [])
  else
    match Token.ofChar? c with
    | some t => ([t], .between)
    | none => ([], .word [c])

/-- Read a character : the tokens it completes and where the reader stands after it. -/
def Mode.step : Mode → Char → Option (List Token × Mode)
  | .between, c => some (begin c)
  | .word read, c =>
    match begin c with
    | ([], .word cs) => some ([], .word (cs ++ read))
    | (ts, mode) => some (.word read.reverse :: ts, mode)
  | .quoted read, c =>
    if c = '"' then some ([.quoted read.reverse], .between)
    else if c = '\\' then some ([], .escape read)
    else if c.toNat < 0x20 then none
    else some ([], .quoted (.char c :: read))
  | .escape read, c =>
    if c = 'u' then some ([], .code read 0 3)
    else (unescape? c).map fun c => ([], .quoted (.char c :: read))
  | .code read value missing, c => do
    let value := value * 16 + (← hexDigit? c)
    match missing with
    | 0 => return ([], .quoted (.unit value :: read))
    | m + 1 => return ([], .code read value m)

/-- The first token that is complete before some characters end. -/
def Mode.first? (mode : Mode) : List Char → Option Token
  | [] => none
  | c :: cs =>
    match mode.step c with
    | none => none
    | some ([], mode) => mode.first? cs
    | some (t :: _, _) => some t

/-- The text that a text starts with in quotes, whatever follows it. -/
def leadingText? (s : String) : Option String := do
  match ← Mode.between.first? s.toList with
  | .quoted pieces => String.ofList <$> Piece.join? pieces
  | _ => none

/-- Read a character, with the tokens read so far at hand, the last token first. -/
def Mode.advance (read : List Token × Mode) (c : Char) : Option (List Token × Mode) := do
  let (ts, mode) ← read.2.step c
  return (ts.reverse ++ read.1, mode)

/-- The tokens of a text. A quoted text is not left open at the end. -/
def tokens? (s : String) : Option (List Token) := do
  match ← s.toList.foldlM Mode.advance ([], .between) with
  | (read, .between) => return read.reverse
  | (read, .word cs) => return (.word cs.reverse :: read).reverse
  | _ => none

end RemoteDebug.Json
