import TypedFlow.Ty.Union

/-!
# Intersections

The intersection holds the values common to both types; types of different kinds have none. A union
is intersected member by member, with its members on the left, so the order of the operands shows
only in the order of members and fields. A struct or an enum with nothing left is `never`.
-/
namespace TypedFlow.Ty

mutual

def intersect : Ty → Ty → Ty
  | .never, _ => .never
  | _, .never => .never
  | .any, b => b
  | a, .any => a
  | .oneOf members, b => unionAll (intersectAll members b)
  | a, .oneOf members => unionAll (intersectAll members a)
  | .number, .number => .number
  | .number, .numeric set => .numeric set
  | .numeric set, .number => .numeric set
  | .numeric a, .numeric b => ofNumericSet (a.intersect b)
  | .string, .string => .string
  | .string, .stringLiteral text => .stringLiteral text
  | .stringLiteral text, .string => .stringLiteral text
  | .stringLiteral a, .stringLiteral b => if a == b then .stringLiteral a else .never
  | .struct a fields, .struct b others =>
    if a == b && sameShape fields others then
      match intersectFields fields others with
      | some common => .struct a common
      | none => .never
    else .never
  | .enum a variants, .enum b others =>
    if a == b then
      match intersectVariants variants others with
      | [] => .never
      | common => .enum a common
    else .never
  | _, _ => .never
termination_by a b => sizeOf a + sizeOf b

def intersectAll : List Ty → Ty → List Ty
  | [], _ => []
  | a :: types, b => intersect a b :: intersectAll types b
termination_by types b => sizeOf types + sizeOf b

/-- Each field intersected with the one of its name, if all of them leave something. -/
def intersectFields : List (String × Ty) → List (String × Ty) → Option (List (String × Ty))
  | [], _ => some []
  | (name, t) :: fields, others =>
    match _h : Entries.get? others name with
    | none => none
    | some other =>
      let common := intersect t other
      if common.isNever then none
      else (intersectFields fields others).map ((name, common) :: ·)
termination_by fields others => sizeOf fields + sizeOf others
decreasing_by
  · have := sizeOf_get? _h
    simp only [List.cons.sizeOf_spec, Prod.mk.sizeOf_spec]
    omega
  · simp only [List.cons.sizeOf_spec, Prod.mk.sizeOf_spec]
    omega

/-- The variants of both lists whose payloads leave something. -/
def intersectVariants :
    List (String × Option Ty) → List (String × Option Ty) → List (String × Option Ty)
  | [], _ => []
  | (name, payload) :: variants, others =>
    match _h : Entries.get? others name with
    | none => intersectVariants variants others
    | some none => (name, payload) :: intersectVariants variants others
    | some (some other) =>
      match payload with
      | none => (name, some other) :: intersectVariants variants others
      | some t =>
        let common := intersect t other
        if common.isNever then intersectVariants variants others
        else (name, some common) :: intersectVariants variants others
termination_by variants others => sizeOf variants + sizeOf others
decreasing_by
  all_goals try
    simp only [List.cons.sizeOf_spec, Prod.mk.sizeOf_spec]
    omega
  have := sizeOf_get? _h
  simp only [List.cons.sizeOf_spec, Prod.mk.sizeOf_spec, Option.some.sizeOf_spec] at this ⊢
  omega

end

/-- No value belongs to both types. -/
def isDisjoint (a b : Ty) : Bool := (intersect a b).isNever

end TypedFlow.Ty
