import TypedFlow.Expr.Basic

/-!
# References

The names an expression refers to, in order and with repetitions. A bare name is left out where it
is bound, by the surroundings or by the arm of a match; the names of functions and structs, and
members of an owner, are never bound.
-/
namespace TypedFlow.Expr

mutual

def references (bound : List String) : Expr → List String
  | .number _ | .string _ | .range _ => []
  | .name n => if bound.contains n then [] else [n]
  | .path owner member => [pathName owner member]
  | .field target _ => references bound target
  | .call function args => function :: referencesAll bound args
  | .record n fields => n :: referencesFields bound fields
  | .binary _ left right => references bound left ++ references bound right
  | .negate operand => references bound operand
  | .select scrutinee arms => references bound scrutinee ++ referencesArms bound arms

def referencesAll (bound : List String) : List Expr → List String
  | [] => []
  | e :: exprs => references bound e ++ referencesAll bound exprs

def referencesFields (bound : List String) : List (String × Expr) → List String
  | [] => []
  | (_, e) :: fields => references bound e ++ referencesFields bound fields

def referencesArms (bound : List String) : List (MatchArm Expr) → List String
  | [] => []
  | ⟨none, binding, body⟩ :: arms =>
    references (binding.toList ++ bound) body ++ referencesArms bound arms
  | ⟨some pattern, binding, body⟩ :: arms =>
    references bound pattern ++ references (binding.toList ++ bound) body ++
      referencesArms bound arms

end

end TypedFlow.Expr
