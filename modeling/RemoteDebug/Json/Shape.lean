import RemoteDebug.Json.Token

/-!
# The shape of a JSON text

`Shape.ofString?` reads a text into a `Shape`, which keeps what is written : members in their
order and more than once, numbers as literals and quoted texts as pieces. A text has a shape
exactly when it is grammatical. What a shape means is decided where it is used, so a part that
nobody looks at may hold a number too large for a double or half a surrogate pair.

The reader keeps the arrays and objects that are open on a stack, so its recursion is over tokens.
-/

namespace RemoteDebug.Json

/-- A JSON text, as it is written. -/
inductive Shape where
  | null
  | bool (b : Bool)
  | number (l : Literal)
  | quoted (pieces : List Piece)
  | array (items : List Shape)
  | object (members : List (List Piece × Shape))

namespace Shape

/-- The shape that a word is. -/
def ofWord? (cs : List Char) : Option Shape :=
  if cs = "null".toList then some .null
  else if cs = "true".toList then some (.bool true)
  else if cs = "false".toList then some (.bool false)
  else .number <$> Literal.ofChars? cs

/-- An array or object that is still open, its parts so far with the last part first. -/
inductive Open where
  | array (items : List Shape)
  | object (members : List (List Piece × Shape))
  /-- An object in which the value of a member is to come. -/
  | member (members : List (List Piece × Shape)) (name : List Piece)

/-- What may come next. -/
inductive Expect where
  | value
  /-- A value, or the end of the array that was just opened. -/
  | item
  | name
  /-- A name, or the end of the object that was just opened. -/
  | member
  | colon (name : List Piece)
  /-- A comma, or the end of what is open. -/
  | more
  /-- Nothing. -/
  | done (shape : Shape)

/-- Where the reader stands. -/
structure State where
  stack : List Open
  expect : Expect

/-- Take a finished value into what is open around it. -/
def State.finish (shape : Shape) : List Open → State
  | .array items :: stack => ⟨.array (shape :: items) :: stack, .more⟩
  | .member members name :: stack => ⟨.object ((name, shape) :: members) :: stack, .more⟩
  | stack => ⟨stack, .done shape⟩

/-- Read the first token of a value. -/
def State.value (stack : List Open) : Token → Option State
  | .openArray => some ⟨.array [] :: stack, .item⟩
  | .openObject => some ⟨.object [] :: stack, .member⟩
  | .word cs => (ofWord? cs).map fun shape => State.finish shape stack
  | .quoted pieces => some (State.finish (.quoted pieces) stack)
  | _ => none

/-- Read a token that closes what is open. -/
def State.close : List Open → Token → Option State
  | .array items :: stack, .closeArray => some (State.finish (.array items.reverse) stack)
  | .object members :: stack, .closeObject => some (State.finish (.object members.reverse) stack)
  | _, _ => none

/-- Read a token. -/
def State.step (s : State) (t : Token) : Option State :=
  match s.expect, t with
  | .value, t => State.value s.stack t
  | .item, .closeArray => State.close s.stack t
  | .item, t => State.value s.stack t
  | .name, .quoted name => some ⟨s.stack, .colon name⟩
  | .member, .quoted name => some ⟨s.stack, .colon name⟩
  | .member, .closeObject => State.close s.stack t
  | .colon name, .colon =>
    match s.stack with
    | .object members :: stack => some ⟨.member members name :: stack, .value⟩
    | _ => none
  | .more, .comma =>
    match s.stack with
    | .array _ :: _ => some ⟨s.stack, .value⟩
    | .object _ :: _ => some ⟨s.stack, .name⟩
    | _ => none
  | .more, t => State.close s.stack t
  | _, _ => none

/-- The shape that some tokens spell. -/
def ofTokens? (ts : List Token) : Option Shape := do
  let s ← ts.foldlM State.step ⟨[], .value⟩
  match s.expect with
  | .done shape => some shape
  | _ => none

/-- The shape of a text. -/
def ofString? (s : String) : Option Shape := do ofTokens? (← tokens? s)

/-! ## Meaning -/

/-- The text that a shape is. -/
def text? : Shape → Option String
  | .quoted pieces => String.ofList <$> Piece.join? pieces
  | _ => none

/-- The natural number that a shape is. -/
def natural? : Shape → Option Nat
  | .number l =>
    match l.value? with
    | some (.natural n) => some n
    | _ => none
  | _ => none

/-- The value of a shape in which arrays and objects are nested at most `depth` deep. -/
def value? : (depth : Nat) → Shape → Option Json
  | _, .null => some .null
  | _, .bool b => some (.bool b)
  | _, .number l => .number <$> l.value?
  | _, .quoted pieces => (.string ∘ String.ofList) <$> Piece.join? pieces
  | depth + 1, .array items => .array <$> items.mapM (value? depth)
  | depth + 1, .object members =>
    Json.ofMembers <$> members.mapM fun (name, shape) =>
      return (String.ofList (← Piece.join? name), ← value? depth shape)
  | 0, .array _ => none
  | 0, .object _ => none

end Shape

/-! ## Records -/

/-- The fields of a record with given names, found by name among members. Members of other names
are ignored, a field that is there twice is an error. -/
def fieldsByName? {α : Type} (names : List String) (members : List (String × α)) :
    Option (List (Option α)) :=
  names.mapM fun name =>
    match members.filter (·.1 == name) with
    | [] => some none
    | [(_, a)] => some (some a)
    | _ => none

/-- The fields of a record with given names, by position. Fields may be missing at the end. -/
def fieldsByPlace? {α : Type} (names : List String) (items : List α) : Option (List (Option α)) :=
  if items.length ≤ names.length then
    some (items.map some ++ List.replicate (names.length - items.length) none)
  else none

/-- The fields of a record that a shape is. -/
def Shape.fields? (names : List String) : Shape → Option (List (Option Shape))
  | .object members => do
    let named ← members.mapM fun (name, shape) =>
      return (String.ofList (← Piece.join? name), shape)
    fieldsByName? names named
  | .array items => fieldsByPlace? names items
  | _ => none

end RemoteDebug.Json
