import TypedFlow.NumericSet.Basic

/-!
# Operations on numeric sets

An operation is carried out on every pair of parts and the results brought to normal form. A
result of two integer parts is an integer part; the intersection is one as soon as either is.
-/
namespace TypedFlow.NumericSet

def union (a b : NumericSet) : NumericSet := ofParts (a.reals ++ b.reals) (a.integers ++ b.integers)

/-- The intervals of a set, each with whether it stands for its integers only. -/
def parts (a : NumericSet) : List (Interval × Bool) :=
  a.reals.map (·, false) ++ a.integers.map (·, true)

/-- The set of some marked intervals. -/
def ofMarked (marked : List (Interval × Bool)) : NumericSet :=
  ofParts ((marked.filter (!·.2)).map (·.1)) ((marked.filter (·.2)).map (·.1))

/-- Every part of `a` with every part of `b`. -/
def pairs (a b : NumericSet) : List ((Interval × Bool) × (Interval × Bool)) :=
  a.parts.flatMap fun x => b.parts.map fun y => (x, y)

def intersect (a b : NumericSet) : NumericSet :=
  ofMarked <| (pairs a b).filterMap fun (x, y) => (x.1.intersect? y.1).map (·, x.2 || y.2)

def combine (op : Interval → Interval → Interval) (a b : NumericSet) : NumericSet :=
  ofMarked <| (pairs a b).map fun (x, y) => (op x.1 y.1, x.2 && y.2)

def map (op : Interval → Interval) (a : NumericSet) : NumericSet :=
  ofParts (a.reals.map op) (a.integers.map op)

def neg : NumericSet → NumericSet := map .neg

def abs : NumericSet → NumericSet := map .abs

def add : NumericSet → NumericSet → NumericSet := combine .add

def sub (a b : NumericSet) : NumericSet := a.add b.neg

def mul : NumericSet → NumericSet → NumericSet := combine .mul

def minimum : NumericSet → NumericSet → NumericSet := combine .minimum

def maximum : NumericSet → NumericSet → NumericSet := combine .maximum

end TypedFlow.NumericSet
