/-!
# Numbers

A number is a binary64 value held exactly: a finite one is a sign together with a whole count of
the least positive step 2^-1074. Order and equality are those of the values, so the two zeros are
equal and a NaN is related to nothing. The total order at the end tells the zeros apart; it is the
one by which intervals are sorted.
-/
namespace TypedFlow

/-- The first count past the greatest number. -/
def overflowUnits : Nat := Nat.pow 2 2098

/-- The counts of least steps that binary64 can hold: 53 significant bits, below the first count
that overflows. -/
def OnGrid (units : Nat) : Prop :=
  (∃ m k, m ≤ Nat.pow 2 53 ∧ units = m * Nat.pow 2 k) ∧ units < overflowUnits

/-- The absolute value of a finite number, counted in least steps. -/
structure Magnitude where
  units : Nat
  onGrid : OnGrid units
deriving DecidableEq

inductive Number
  | nan
  | infinite (negative : Bool)
  | finite (negative : Bool) (size : Magnitude)
deriving DecidableEq

namespace Number

theorem overflowUnits_pos : 0 < overflowUnits := by
  unfold overflowUnits
  generalize 2098 = e
  exact Nat.two_pow_pos e

theorem onGrid_zero : OnGrid 0 :=
  ⟨⟨0, 0, Nat.zero_le _, (Nat.zero_mul _).symm⟩, overflowUnits_pos⟩

/-- Least steps in the number one. -/
def unitsPerOne : Nat := Nat.pow 2 1074

theorem unitsPerOne_pos : 0 < unitsPerOne := by
  unfold unitsPerOne
  generalize 1074 = e
  exact Nat.two_pow_pos e

def zero : Number := .finite false ⟨0, onGrid_zero⟩

def infinity : Number := .infinite false

def negInfinity : Number := .infinite true

instance : Inhabited Number := ⟨zero⟩

def isNan : Number → Bool
  | .nan => true
  | _ => false

def isFinite : Number → Bool
  | .finite .. => true
  | _ => false

/-- The sign bit; a NaN carries none. -/
def isNegative : Number → Bool
  | .nan => false
  | .infinite negative => negative
  | .finite negative _ => negative

def signed (negative : Bool) (count : Nat) : Int :=
  if negative then -(count : Int) else count

/-- The place on the extended line, in least steps. The infinities sit just past the finite
numbers. -/
def position? : Number → Option Int
  | .nan => none
  | .infinite negative => some (signed negative overflowUnits)
  | .finite negative size => some (signed negative size.units)

def lt (a b : Number) : Bool :=
  match a.position?, b.position? with
  | some x, some y => x < y
  | _, _ => false

/-- Numeric equality: `-0` equals `0`, and NaN equals nothing. -/
def equal (a b : Number) : Bool :=
  match a.position?, b.position? with
  | some x, some y => x == y
  | _, _ => false

instance : BEq Number := ⟨equal⟩

/-- The order used for sorting: by value, then the negative zero first. NaN comes last. -/
def totalOrder (a b : Number) : Ordering :=
  (compare (a.position?.getD (overflowUnits + 1)) (b.position?.getD (overflowUnits + 1))).then
    (compare b.isNegative.toNat a.isNegative.toNat)

def neg : Number → Number
  | .nan => .nan
  | .infinite negative => .infinite (!negative)
  | .finite negative size => .finite (!negative) size

instance : Neg Number := ⟨neg⟩

def isIntegral : Number → Bool
  | .finite _ size => size.units % unitsPerOne == 0
  | _ => false

end Number
end TypedFlow
