import RemoteDebug.Decimal.Shortest

/-!
# Numbers in JSON

A number is a `Literal` on the page and a `Number` as a value. An integer that fits in 64 bits is
itself. Every other number is a double, and a number too large for one has no value.

`Literal.float?` says which double. Digits go into a significand as long as it stays below 2 ^ 64,
later ones only move the decimal point, and the significand is then multiplied or divided by a
power of ten in double arithmetic. `Number.render` writes a double with the fewest digits that
read back as it.
-/

namespace RemoteDebug.Json

/-- The value of a number. -/
inductive Number where
  /-- An integer from 0 to 2 ^ 64 - 1. -/
  | natural (n : Nat)
  /-- The integer `-n`, where `n` is from 1 to 2 ^ 63. -/
  | negative (n : Nat)
  /-- A double, by its bits. -/
  | float (bits : UInt64)
  deriving DecidableEq, Repr

/-- A number as it is written, in digits from 0 to 9. -/
structure Literal where
  negative : Bool
  whole : List Nat
  /-- The digits after the point. -/
  fraction : Option (List Nat)
  /-- The exponent, with its sign. -/
  exponent : Option (Bool × List Nat)
  deriving DecidableEq, Repr

namespace Literal

/-- The digits at the start of a text, and the rest. -/
def splitDigits (cs : List Char) : List Nat × List Char :=
  ((cs.takeWhile Char.isDigit).map fun c => c.toNat - '0'.toNat, cs.dropWhile Char.isDigit)

/-- Read the digits after a point, if a point comes next. -/
def readFraction : List Char → Option (Option (List Nat) × List Char)
  | '.' :: cs =>
    match splitDigits cs with
    | ([], _) => none
    | (ds, rest) => some (some ds, rest)
  | cs => some (none, cs)

/-- Read an exponent, if its mark comes next. -/
def readExponent : List Char → Option (Option (Bool × List Nat) × List Char)
  | [] => some (none, [])
  | c :: cs =>
    if c = 'e' ∨ c = 'E' then
      let (negative, cs) := match cs with
        | '-' :: cs => (true, cs)
        | '+' :: cs => (false, cs)
        | cs => (false, cs)
      match splitDigits cs with
      | ([], _) => none
      | (ds, rest) => some (some (negative, ds), rest)
    else some (none, c :: cs)

/-- The literal that a text is. A whole part of several digits does not start with 0. -/
def ofChars? (cs : List Char) : Option Literal := do
  let (negative, cs) := match cs with
    | '-' :: cs => (true, cs)
    | cs => (false, cs)
  let (whole, cs) := splitDigits cs
  guard (whole ≠ [] ∧ (whole.head? = some 0 → whole.length = 1))
  let (fraction, cs) ← readFraction cs
  let (exponent, cs) ← readExponent cs
  guard (cs = [])
  return ⟨negative, whole, fraction, exponent⟩

/-- Append digits to a significand while it stays below 2 ^ 64. The digits from the first that
does not fit are left over. -/
def absorb (significand : Nat) : List Nat → Nat × List Nat
  | [] => (significand, [])
  | d :: ds =>
    if significand * 10 + d < UInt64.size then absorb (significand * 10 + d) ds
    else (significand, d :: ds)

/-- The number that digits spell. -/
def spell (ds : List Nat) : Nat := ds.foldl (fun n d => n * 10 + d) 0

/-- `10 ^ e` as a double. -/
def powerOfTen (e : Nat) : Float := Float.ofScientific 1 false e

/-- Divide by `10 ^ e`, in steps of at most `10 ^ 308`. -/
def divide (x : Float) (e : Nat) : Float :=
  if e ≤ 308 then x / powerOfTen e
  else if x == 0 then x
  else divide (x / powerOfTen 308) (e - 308)
termination_by e

/-- `significand * 10 ^ e` in double arithmetic, unless it is too large. -/
def scale? (significand : Nat) (e : Int) : Option Float :=
  let x := significand.toUInt64.toFloat
  if e < 0 then some (divide x e.natAbs)
  else if e ≤ 308 then
    let y := x * powerOfTen e.toNat
    if y.isInf then none else some y
  else if significand = 0 then some x
  else none

/-- Clamp an exponent to 32 bits. -/
def clamp (e : Int) : Int := max (-2147483648) (min 2147483647 e)

/-- The size of the double that the literal stands for. An exponent past 32 bits leaves no number
but zero. -/
def float? (l : Literal) : Option Float :=
  let (significand, left) := absorb 0 l.whole
  let fraction := l.fraction.getD []
  let (significand, dropped) := absorb significand fraction
  let start : Int := (left.length : Int) - ((fraction.length : Int) - dropped.length)
  match l.exponent with
  | none => scale? significand start
  | some (negative, ds) =>
    let e := spell ds
    if e ≤ 2147483647 then
      scale? significand (clamp (if negative then start - e else start + e))
    else if significand ≠ 0 ∧ !negative then none
    else some 0

/-- The size of the least integer of 64 bits. -/
def largestNegative : Nat := 9223372036854775808

/-- The value of a literal, unless it is too large. -/
def value? (l : Literal) : Option Number :=
  match l.fraction, l.exponent, absorb 0 l.whole with
  | none, none, (n, []) =>
    if !l.negative then some (.natural n)
    else if n = 0 ∨ largestNegative < n then some (.float (-n.toUInt64.toFloat).toBits)
    else some (.negative n)
  | _, _, _ => do
    let x ← l.float?
    return .float (if l.negative then -x else x).toBits

end Literal

namespace Number

/-- Text of a decimal. Up to 16 digits before the point and up to 4 zeros after it, the number is
written out, otherwise with an exponent. -/
def renderDecimal (d : Decimal) : String :=
  let ds := (Nat.toDigits 10 d.digits)
  let point := (ds.length : Int) + d.exponent
  let zeros (n : Int) := List.replicate n.toNat '0'
  String.ofList <|
    if 0 ≤ d.exponent ∧ point ≤ 16 then ds ++ zeros d.exponent ++ ['.', '0']
    else if 0 < point ∧ point ≤ 16 then ds.take point.toNat ++ '.' :: ds.drop point.toNat
    else if -5 < point ∧ point ≤ 0 then '0' :: '.' :: (zeros (-point) ++ ds)
    else
      let mantissa := match ds with
        | [d] => [d]
        | ds => ds.take 1 ++ '.' :: ds.drop 1
      mantissa ++ 'e' :: (toString (point - 1)).toList

/-- Text of a double. -/
def renderFloat (bits : UInt64) : String :=
  let n := bits.toNat
  let sign := if bits >>> 63 = 1 then "-" else ""
  let biased := n / Binary.leadingBit % 2048
  let fraction := n % Binary.leadingBit
  if biased = 0 ∧ fraction = 0 then sign ++ "0.0"
  else sign ++ renderDecimal (Binary.ofFields biased fraction).shortest

/-- Text of a number. -/
def render : Number → String
  | .natural n => toString n
  | .negative n => "-" ++ toString n
  | .float bits => renderFloat bits

end Number

end RemoteDebug.Json
