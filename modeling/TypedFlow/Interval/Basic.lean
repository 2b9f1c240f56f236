import TypedFlow.Number.Arithmetic

/-!
# Intervals

An interval is a contiguous range of real numbers between two ends, each included or not. An
infinite end is never included. Nothing keeps an interval from being empty: its ends may cross or
be NaN, and `isEmpty` says so.
-/
namespace TypedFlow

structure Bound where
  value : Number
  inclusive : Bool
  finite_of_inclusive : inclusive = true → value.isFinite = true
deriving DecidableEq

namespace Bound

/-- The end at `value`, included if asked for and finite. -/
def of (value : Number) (inclusive : Bool) : Bound where
  value := value
  inclusive := inclusive && value.isFinite
  finite_of_inclusive h := (Bool.and_eq_true_iff.1 h).2

/-- The end at `value`, included whenever it is finite. -/
def closed (value : Number) : Bound := of value true

def unboundedBelow : Bound := of .negInfinity false

def unboundedAbove : Bound := of .infinity false

def isFinite (b : Bound) : Bool := b.value.isFinite

/-- Ends are equal when their values are numerically equal and both or neither is included. -/
instance : BEq Bound := ⟨fun a b => a.value == b.value && a.inclusive == b.inclusive⟩

/-- As lower ends, `a` restricts at most as much as `b`. -/
def lowerLE (a b : Bound) : Bool :=
  a.value.lt b.value || (a.value == b.value && (a.inclusive || !b.inclusive))

/-- As upper ends, `a` restricts at most as much as `b`. -/
def upperGE (a b : Bound) : Bool :=
  b.value.lt a.value || (a.value == b.value && (a.inclusive || !b.inclusive))

def tighterLower (a b : Bound) : Bound := if lowerLE a b then b else a

def tighterUpper (a b : Bound) : Bound := if upperGE a b then b else a

def looserLower (a b : Bound) : Bound := if lowerLE a b then a else b

def looserUpper (a b : Bound) : Bound := if upperGE a b then a else b

end Bound

structure Interval where
  lower : Bound
  upper : Bound
deriving DecidableEq

namespace Interval

instance : BEq Interval := ⟨fun a b => a.lower == b.lower && a.upper == b.upper⟩

def point (value : Number) : Interval := ⟨.closed value, .closed value⟩

def unbounded : Interval := ⟨.unboundedBelow, .unboundedAbove⟩

def isEmpty (i : Interval) : Bool :=
  i.lower.value.isNan || i.upper.value.isNan || i.upper.value.lt i.lower.value ||
    (i.lower.value == i.upper.value && !(i.lower.inclusive && i.upper.inclusive))

def isPoint (i : Interval) : Bool := !i.isEmpty && i.lower.value == i.upper.value

/-- The ends of `i` lie outside or at those of `j`. -/
def contains (i j : Interval) : Bool := i.lower.lowerLE j.lower && i.upper.upperGE j.upper

def containsValue (i : Interval) (value : Number) : Bool := i.contains (point value)

def nonempty? (i : Interval) : Option Interval := if i.isEmpty then none else some i

def intersect? (i j : Interval) : Option Interval :=
  nonempty? ⟨i.lower.tighterLower j.lower, i.upper.tighterUpper j.upper⟩

/-- There is a gap, be it a single number, between an upper end and a lower end. -/
def gap (upper lower : Bound) : Bool :=
  upper.value.lt lower.value ||
    (upper.value == lower.value && !upper.inclusive && !lower.inclusive)

/-- The union of the two is again one interval. -/
def connects (i j : Interval) : Bool := !gap i.upper j.lower && !gap j.upper i.lower

/-- No integer lies strictly between the two. -/
def connectsIntegers (i j : Interval) : Bool :=
  !(i.upper.value + 1).lt j.lower.value && !(j.upper.value + 1).lt i.lower.value

/-- The least interval that contains both. -/
def hull (i j : Interval) : Interval :=
  ⟨i.lower.looserLower j.lower, i.upper.looserUpper j.upper⟩

/-- The first integer at or above a lower end. -/
def firstInteger (b : Bound) : Bound :=
  if b.isFinite then
    let value := b.value.ceil
    .closed (if !b.inclusive && value == b.value then value + 1 else value)
  else b

/-- The last integer at or below an upper end. -/
def lastInteger (b : Bound) : Bound :=
  if b.isFinite then
    let value := b.value.floor
    .closed (if !b.inclusive && value == b.value then value - 1 else value)
  else b

/-- The integers of an interval, as an interval whose finite ends are included integers. -/
def integers? (i : Interval) : Option Interval :=
  nonempty? ⟨firstInteger i.lower, lastInteger i.upper⟩

/-- The integers of `i` that are not in `cover`, both being integer intervals. -/
def withoutIntegers (i cover : Interval) : List Interval :=
  if (i.intersect? cover).isNone then [i]
  else
    let below : Interval := ⟨i.lower, .closed (cover.lower.value - 1)⟩
    let above : Interval := ⟨.closed (cover.upper.value + 1), i.upper⟩
    (if i.lower.value.lt cover.lower.value then below.nonempty?.toList else []) ++
      (if cover.upper.value.lt i.upper.value then above.nonempty?.toList else [])

end Interval
end TypedFlow
