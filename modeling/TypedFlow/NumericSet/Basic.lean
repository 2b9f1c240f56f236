import TypedFlow.Interval.Arithmetic

/-!
# Sets of numbers

A numeric set is a list of real intervals together with a list of integer intervals. `ofParts`
brings any two such lists to normal form: the real intervals are as large as possible and in
order, so are the integer intervals, a single integer counts as an integer interval, an integer
next to an open end closes it, and no integer is listed that a real interval covers already.
-/
namespace TypedFlow

structure NumericSet where
  reals : List Interval
  integers : List Interval
deriving DecidableEq

namespace NumericSet

instance : BEq NumericSet := ⟨fun a b => a.reals == b.reals && a.integers == b.integers⟩

/-- By lower end, an included end before an excluded one. -/
def startsBefore (i j : Interval) : Bool :=
  ((i.lower.value.totalOrder j.lower.value).then
    (compare j.lower.inclusive.toNat i.lower.inclusive.toNat)).isLE

/-- Joins neighbours in a list that is already in order. -/
def coalesce (connects : Interval → Interval → Bool) : List Interval → List Interval
  | i :: j :: rest =>
    if connects i j then coalesce connects (i.hull j :: rest)
    else i :: coalesce connects (j :: rest)
  | short => short
termination_by intervals => intervals.length

/-- The intervals in order, those that connect joined. -/
def merge (connects : Interval → Interval → Bool) (intervals : List Interval) : List Interval :=
  coalesce connects (intervals.mergeSort startsBefore)

def mergeReals : List Interval → List Interval := merge Interval.connects

def mergeIntegers : List Interval → List Interval := merge Interval.connectsIntegers

/-- A point at an integer, which belongs among the integers. -/
def isIntegralPoint (i : Interval) : Bool := i.isPoint && i.lower.value.isIntegral

/-- An open end on which one of the integers sits becomes closed. -/
def closeEnd (integers : List Interval) (b : Bound) : Bound :=
  if b.value.isIntegral && integers.any (·.containsValue b.value) then .closed b.value else b

def closeEnds (integers : List Interval) (i : Interval) : Interval :=
  ⟨closeEnd integers i.lower, closeEnd integers i.upper⟩

/-- Intervals with their ends closed. Where this changes anything they may connect, and are joined
again. -/
def absorb (integers intervals : List Interval) : List Interval :=
  let closed := intervals.map (closeEnds integers)
  if closed = intervals then intervals else mergeReals closed

/-- What the integers of the real intervals leave of some integer intervals. -/
def uncovered (reals integers : List Interval) : List Interval :=
  (reals.filterMap Interval.integers?).foldl
    (fun rest cover => rest.flatMap (·.withoutIntegers cover)) integers

/-- The normal form of the numbers in `reals` and the integers in `integers`. -/
def ofParts (reals integers : List Interval) : NumericSet :=
  let (points, ranges) := (reals.filter (!·.isEmpty)).partition isIntegralPoint
  let whole := mergeIntegers (integers.filterMap Interval.integers? ++ points)
  let closed := absorb whole (mergeReals ranges)
  ⟨closed, mergeIntegers (uncovered closed whole)⟩

def empty : NumericSet := ⟨[], []⟩

def allReals : NumericSet := ofParts [.unbounded] []

def allIntegers : NumericSet := ofParts [] [.unbounded]

def literal (value : Number) : NumericSet := ofParts [.point value] []

def ofInterval (i : Interval) : NumericSet := ofParts [i] []

def ofIntegers (i : Interval) : NumericSet := ofParts [] [i]

def isEmpty (a : NumericSet) : Bool := a.reals.isEmpty && a.integers.isEmpty

def isAllReals (a : NumericSet) : Bool :=
  match a.reals with
  | [only] => only == .unbounded
  | _ => false

def isIntegral (a : NumericSet) : Bool := a.reals.isEmpty

/-- The number of a set that holds exactly one. -/
def literal? (a : NumericSet) : Option Number :=
  match a.reals, a.integers with
  | [only], [] | [], [only] => if only.isPoint then some only.lower.value else none
  | _, _ => none

/-- Every number of `b` is in `a`. -/
def contains (a b : NumericSet) : Bool :=
  b.reals.all (fun r => a.reals.any (·.contains r)) &&
    b.integers.all fun i =>
      (uncovered a.reals [i]).all fun piece => a.integers.any (·.contains piece)

end NumericSet
end TypedFlow
