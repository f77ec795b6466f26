/-!
# The shortest decimal of a binary float

A finite float is `significand * 2 ^ exponent`. The reals that round to it form an interval, with
its ends when the significand is even. `shortest` goes through the decimal grids from the coarsest
to the finest and stops at the first that has a point in the interval. Of the two points of that
grid next to the float it takes the one in the interval, or the nearer one when both are.

All comparisons are exact, between natural numbers over a common denominator.
-/

namespace RemoteDebug

/-- The number `digits * 10 ^ exponent`. -/
structure Decimal where
  digits : Nat
  exponent : Int
  deriving DecidableEq, Repr

/-- A positive float, `significand * 2 ^ exponent`. -/
structure Binary where
  significand : Nat
  exponent : Int
  /-- The next smaller float is half as far away as the next larger one. -/
  narrowBelow : Bool
  deriving DecidableEq, Repr

namespace Binary

/-- The weight of the bit in front of the fraction of a double, which has 52 bits. -/
def leadingBit : Nat := 4503599627370496

/-- The float that the exponent and fraction bits of a double stand for. -/
def ofFields (biased fraction : Nat) : Binary :=
  if biased = 0 then ⟨fraction, -1074, false⟩
  else ⟨fraction + leadingBit, (biased : Int) - 1075, fraction = 0 ∧ 1 < biased⟩

/-- `n * base ^ e` as a numerator, when the denominator is that of `base ^ (-e)`. -/
def scaled (n base : Nat) (e : Int) : Nat := n * Nat.pow base e.toNat

/-- The points of the grid of step `10 ^ e` next to the float, as far as they round to it, the
nearer one first. -/
def candidates (b : Binary) (e : Int) : List Decimal :=
  -- Everything is counted in quarters of the last binary place, times 2 ^ exponent / 10 ^ e.
  let q := b.exponent - 2
  let scale (n : Nat) : Nat := scaled (scaled n 2 q) 10 (-e)
  let unit := scaled (scaled 1 2 (-q)) 10 e
  let value := scale (4 * b.significand)
  let high := scale (4 * b.significand + 2)
  let low := scale (4 * b.significand - if b.narrowBelow then 1 else 2)
  let inside (d : Nat) : Bool :=
    if b.significand % 2 = 0 then low ≤ d * unit ∧ d * unit ≤ high
    else low < d * unit ∧ d * unit < high
  let below := value / unit
  let above := below + 1
  let aboveNearer := above * unit - value < value - below * unit
  let order := if aboveNearer then [above, below] else [below, above]
  (order.filter inside).map fun d => ⟨d, e⟩

/-- The decimal of fewest digits that rounds to the float, and the nearest to it of those. -/
def shortest (b : Binary) : Decimal :=
  let grids := (List.range 640).map fun (k : Nat) => (310 : Int) - k
  (grids.findSome? fun e => (b.candidates e).head?).getD ⟨0, 0⟩

end Binary

end RemoteDebug
