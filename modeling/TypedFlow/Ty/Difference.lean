import TypedFlow.Ty.Union

/-!
# Differences

`without a b` drops the members of `a` that `b` covers. An enum loses the single variants that are
covered; numeric sets, strings and structs go whole or stay whole.
-/
namespace TypedFlow.Ty

/-- What is left of one member, if anything. -/
def remainder? (b member : Ty) : Option Ty :=
  if member.isSubtype b then none
  else match member with
    | .enum name variants =>
      some (.enum name (variants.filter fun variant => !(Ty.enum name [variant]).isSubtype b))
    | other => some other

def without (a b : Ty) : Ty := unionAll (a.members.filterMap (remainder? b))

end TypedFlow.Ty
