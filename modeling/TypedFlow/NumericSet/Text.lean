import TypedFlow.NumericSet.Basic
import TypedFlow.Number.Text

/-!
# Numeric set texts

The parts are joined by bars, integers first. A range leaves an infinite end out and marks an
excluded one by an angle; ranges of integers stand inside `int(...)`.
-/
namespace TypedFlow

/-- The text of a finite end, nothing for an infinite one. -/
def Bound.text (b : Bound) : String := if b.isFinite then b.value.display else ""

/-- The mark of a finite end that is excluded. -/
def Bound.openMark (b : Bound) : String := if b.isFinite && !b.inclusive then "<" else ""

def Interval.rangeText (i : Interval) : String :=
  i.lower.text ++ i.lower.openMark ++ ".." ++ i.upper.openMark ++ i.upper.text

def Interval.realText (i : Interval) : String :=
  if i.isPoint then i.lower.value.display else i.rangeText

def Interval.integerText (i : Interval) : String :=
  if i.isPoint then i.lower.value.display
  else if i == .unbounded then "int"
  else "int(" ++ i.rangeText ++ ")"

/-- The text between the members of any union. -/
def unionMark : String := " | "

def NumericSet.text (a : NumericSet) : String :=
  if a.isEmpty then "never"
  else unionMark.intercalate (a.integers.map Interval.integerText ++ a.reals.map Interval.realText)

end TypedFlow
