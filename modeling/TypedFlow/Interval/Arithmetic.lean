import TypedFlow.Interval.Basic

/-!
# Interval arithmetic

Each operation gives the ends of the set of results. Products take zero times infinity as zero, so
that an unbounded factor does not spoil a factor with an end at zero.
-/
namespace TypedFlow.Interval

def neg (i : Interval) : Interval :=
  ⟨.of (-i.upper.value) i.upper.inclusive, .of (-i.lower.value) i.lower.inclusive⟩

/-- The end of a sum is included when both ends are. -/
def addBound (a b : Bound) : Bound := .of (a.value + b.value) (a.inclusive && b.inclusive)

def add (i j : Interval) : Interval := ⟨addBound i.lower j.lower, addBound i.upper j.upper⟩

/-- An end at zero stays at zero and is as included as it was, the left factor deciding first. -/
def mulBound (a b : Bound) : Bound :=
  if a.value == 0 then .of 0 a.inclusive
  else if b.value == 0 then .of 0 b.inclusive
  else .of (a.value * b.value) (a.inclusive && b.inclusive)

/-- The hull of the four products of ends. -/
def mul (i j : Interval) : Interval :=
  let first := mulBound i.lower j.lower
  let others := [mulBound i.lower j.upper, mulBound i.upper j.lower, mulBound i.upper j.upper]
  ⟨others.foldl .looserLower first, others.foldl .looserUpper first⟩

def abs (i : Interval) : Interval :=
  let zero := Bound.closed 0
  if zero.lowerLE i.lower then i
  else if zero.upperGE i.upper then i.neg
  else ⟨zero, (Bound.of (-i.lower.value) i.lower.inclusive).looserUpper i.upper⟩

def minimum (i j : Interval) : Interval :=
  ⟨i.lower.looserLower j.lower, i.upper.tighterUpper j.upper⟩

def maximum (i j : Interval) : Interval :=
  ⟨i.lower.tighterLower j.lower, i.upper.looserUpper j.upper⟩

end TypedFlow.Interval
