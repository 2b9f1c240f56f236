import TypedFlow.Ty.Basic

/-!
# Subtyping

`isSubtype a b` says that every value of `a` is a value of `b`. A union on the left must be covered
member by member; on the right one member must cover the whole left side.
-/
namespace TypedFlow.Ty

mutual

def isSubtype : Ty → Ty → Bool
  | .never, _ => true
  | _, .any => true
  | .any, _ => false
  | _, .never => false
  | .oneOf members, b => allWithin members b
  | a, .oneOf members => withinSome a members
  | .number, .number => true
  | .numeric _, .number => true
  | .numeric a, .numeric b => b.contains a
  | .string, .string => true
  | .stringLiteral _, .string => true
  | .stringLiteral a, .stringLiteral b => a == b
  | .struct a fields, .struct b others =>
    a == b && sameShape fields others && fieldsWithin fields others
  | .enum a variants, .enum b others => a == b && variantsWithin variants others
  | _, _ => false
termination_by a b => sizeOf a + sizeOf b

def allWithin : List Ty → Ty → Bool
  | [], _ => true
  | a :: types, b => isSubtype a b && allWithin types b
termination_by types b => sizeOf types + sizeOf b

def withinSome : Ty → List Ty → Bool
  | _, [] => false
  | a, b :: types => isSubtype a b || withinSome a types
termination_by a types => sizeOf a + sizeOf types

/-- Each field lies within the field of the same name. -/
def fieldsWithin : List (String × Ty) → List (String × Ty) → Bool
  | [], _ => true
  | (name, t) :: fields, others =>
    (match _h : Entries.get? others name with
      | some other => isSubtype t other
      | none => false) && fieldsWithin fields others
termination_by fields others => sizeOf fields + sizeOf others
decreasing_by
  · have := sizeOf_get? _h
    simp only [List.cons.sizeOf_spec, Prod.mk.sizeOf_spec]
    omega
  · simp only [List.cons.sizeOf_spec, Prod.mk.sizeOf_spec]
    omega

/-- Each variant is listed on the other side with a payload type that covers its own. -/
def variantsWithin : List (String × Option Ty) → List (String × Option Ty) → Bool
  | [], _ => true
  | (name, payload) :: variants, others =>
    (match _h : Entries.get? others name with
      | none => false
      | some none => true
      | some (some other) =>
        match payload with
        | some t => isSubtype t other
        | none => false) && variantsWithin variants others
termination_by variants others => sizeOf variants + sizeOf others
decreasing_by
  · have := sizeOf_get? _h
    simp only [List.cons.sizeOf_spec, Prod.mk.sizeOf_spec, Option.some.sizeOf_spec] at this ⊢
    omega
  · simp only [List.cons.sizeOf_spec, Prod.mk.sizeOf_spec]
    omega

end

end TypedFlow.Ty
