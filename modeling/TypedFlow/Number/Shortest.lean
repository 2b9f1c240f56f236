import TypedFlow.Number.Rounding

/-!
# Shortest decimals

The shortest decimal of a number is the one with the fewest significant digits that reads back to
it. Decimals are counted in steps of 10^-324, the finest place that a shortest decimal needs, so a
decimal is a natural number and no exponent is kept.
-/
namespace TypedFlow.Number

/-- Places after the point in which shortest decimals are counted. -/
def finestPlace : Nat := 324

/-- Steps of the finest place in the number one. -/
def finestPerOne : Nat := Nat.pow 10 finestPlace

/-- A magnitude counted in whole finest places, what is left over being dropped. -/
def wholeFinest (x : Magnitude) : Nat := x.units * finestPerOne / unitsPerOne

/-- The number that a decimal, counted in finest places, reads as. -/
def ofFinest (decimal : Nat) : Number := ofDecimal decimal finestPlace

def digitCount (n : Nat) : Nat := (Nat.toDigits 10 n).length

/-- Of the two neighbours of `x` on a decimal grid those that read back, the nearer one if both do.
A tie goes to the greater. -/
def readingBack? (x : Magnitude) (step : Nat) : Option Nat :=
  let below := wholeFinest x / step * step
  let above := below + step
  let reads (decimal : Nat) : Bool := ofFinest decimal == .finite false x
  let belowNearer := 2 * x.units * finestPerOne < (below + above) * unitsPerOne
  if reads below && (!reads above || belowNearer) then some below
  else if reads above then some above
  else none

/-- The fewest digits that read back, tried one digit at a time from the coarsest grid. -/
def shortest (x : Magnitude) : Nat :=
  let whole := wholeFinest x
  let places := digitCount whole
  ((List.range places).findSome? fun i => readingBack? x (Nat.pow 10 (places - 1 - i))).getD whole

end TypedFlow.Number
