/-!
# Ranges of characters

A class of characters is given by the ranges of its code points in ascending order.
-/
namespace TypedFlow.Text

/-- Inclusive ranges of code points. -/
abbrev Ranges := List (Nat × Nat)

def Ranges.has (ranges : Ranges) (c : Char) : Bool :=
  ranges.any fun (first, last) => first ≤ c.toNat && c.toNat ≤ last

end TypedFlow.Text
