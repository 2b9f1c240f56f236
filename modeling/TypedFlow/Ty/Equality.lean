import TypedFlow.Ty.Basic

/-!
# Equality of types

Numeric sets are compared by the values of their ends, fields and variants in order. Unions are
equal when they have as many members and for every member of the first some member of the second
is equal to it. The member of the second is then the left side of the comparison, so the sides are
exchanged below every union. Where a member is repeated this shows: `A | A` equals `A | B`, while
`A | B` does not equal `A | A`.
-/
namespace TypedFlow.Ty

mutual

def equal : Ty → Ty → Bool
  | .any, .any | .never, .never | .number, .number | .string, .string => true
  | .numeric a, .numeric b => a == b
  | .stringLiteral a, .stringLiteral b => a == b
  | .struct a fields, .struct b others => a == b && equalFields fields others
  | .enum a variants, .enum b others => a == b && equalVariants variants others
  | .oneOf members, .oneOf others =>
    members.length == others.length && allAmong members others
  | _, _ => false
termination_by a b => sizeOf a + sizeOf b

def equalFields : List (String × Ty) → List (String × Ty) → Bool
  | [], [] => true
  | (a, s) :: fields, (b, t) :: others => a == b && equal s t && equalFields fields others
  | _, _ => false
termination_by fields others => sizeOf fields + sizeOf others

def equalVariants : List (String × Option Ty) → List (String × Option Ty) → Bool
  | [], [] => true
  | (a, none) :: variants, (b, none) :: others => a == b && equalVariants variants others
  | (a, some s) :: variants, (b, some t) :: others =>
    a == b && equal s t && equalVariants variants others
  | _, _ => false
termination_by variants others => sizeOf variants + sizeOf others

/-- For every type of the first list some type of the second is equal to it. -/
def allAmong : List Ty → List Ty → Bool
  | [], _ => true
  | t :: types, others => someEqual others t && allAmong types others
termination_by types others => sizeOf types + sizeOf others

def someEqual : List Ty → Ty → Bool
  | [], _ => false
  | other :: types, t => equal other t || someEqual types t
termination_by types t => sizeOf types + sizeOf t

end

instance : BEq Ty := ⟨equal⟩

end TypedFlow.Ty
