import TypedFlow.Number.Basic

/-!
# Expressions

The expressions that denote types. Equality of expressions is structural, with numbers compared by
value, so that the two zeros make no difference.
-/
namespace TypedFlow

/-- A range with optional ends; a missing end is unbounded. -/
structure RangeLiteral where
  min : Option Number
  max : Option Number
  minInclusive : Bool
  maxInclusive : Bool
deriving DecidableEq

inductive BinaryOp
  | union
  | intersection
  | add
  | subtract
  | multiply
deriving DecidableEq

/-- One arm of a match. An arm without a pattern takes everything. -/
structure MatchArm (ε : Type) where
  pattern : Option ε
  binding : Option String
  body : ε

inductive Expr
  | number (value : Number)
  | string (value : String)
  | range (range : RangeLiteral)
  | name (name : String)
  /-- A variant of an enum, or a definition with an owner. -/
  | path (owner member : String)
  | field (target : Expr) (name : String)
  | call (function : String) (args : List Expr)
  | record (name : String) (fields : List (String × Expr))
  | binary (op : BinaryOp) (left right : Expr)
  | negate (operand : Expr)
  | select (scrutinee : Expr) (arms : List (MatchArm Expr))
deriving Inhabited

/-- The one name under which a member of an owner is known. -/
def pathName (owner member : String) : String := owner ++ "::" ++ member

instance : BEq RangeLiteral where
  beq a b := a.min == b.min && a.max == b.max && a.minInclusive == b.minInclusive &&
    a.maxInclusive == b.maxInclusive

namespace Expr

mutual

def equal : Expr → Expr → Bool
  | .number a, .number b => a == b
  | .string a, .string b => a == b
  | .range a, .range b => a == b
  | .name a, .name b => a == b
  | .path a s, .path b t => a == b && s == t
  | .field a s, .field b t => equal a b && s == t
  | .call f args, .call g others => f == g && equalAll args others
  | .record a fields, .record b others => a == b && equalFields fields others
  | .binary op a s, .binary other b t => op == other && equal a b && equal s t
  | .negate a, .negate b => equal a b
  | .select a arms, .select b others => equal a b && equalArms arms others
  | _, _ => false

def equalAll : List Expr → List Expr → Bool
  | [], [] => true
  | a :: exprs, b :: others => equal a b && equalAll exprs others
  | _, _ => false

def equalFields : List (String × Expr) → List (String × Expr) → Bool
  | [], [] => true
  | (s, a) :: fields, (t, b) :: others => s == t && equal a b && equalFields fields others
  | _, _ => false

def equalArms : List (MatchArm Expr) → List (MatchArm Expr) → Bool
  | [], [] => true
  | ⟨none, s, a⟩ :: arms, ⟨none, t, b⟩ :: others => s == t && equal a b && equalArms arms others
  | ⟨some p, s, a⟩ :: arms, ⟨some q, t, b⟩ :: others =>
    equal p q && s == t && equal a b && equalArms arms others
  | _, _ => false

end

instance : BEq Expr := ⟨equal⟩

end Expr
end TypedFlow
