import TypedFlow.Dictionary
import TypedFlow.NumericSet.Operations

/-!
# Types

A type stands for the set of values that a socket may carry. Structs have ordered fields; an enum
lists some of the variants of its name, in order of their names, each with the type of its payload.
A variant without a payload type admits every payload. Unions are built by `unionAll` only, which
keeps them flat and free of members that another member covers.
-/
namespace TypedFlow

inductive Ty
  | any
  | never
  | number
  | string
  | numeric (set : NumericSet)
  | stringLiteral (text : String)
  | struct (name : String) (fields : List (String × Ty))
  | enum (name : String) (variants : List (String × Option Ty))
  | oneOf (members : List Ty)
deriving Inhabited

namespace Ty

def boolName : String := "bool"

/-- The type of a numeric set: nothing and everything have types of their own. -/
def ofNumericSet (set : NumericSet) : Ty :=
  if set.isEmpty then .never else if set.isAllReals then .number else .numeric set

/-- The type of one number. NaN is no value. -/
def literal (value : Number) : Ty :=
  if value.isNan then .never else ofNumericSet (.literal value)

def interval (lower upper : Bound) : Ty := ofNumericSet (.ofInterval ⟨lower, upper⟩)

def intInterval (lower upper : Bound) : Ty := ofNumericSet (.ofIntegers ⟨lower, upper⟩)

def int : Ty := ofNumericSet .allIntegers

/-- An enum with the variants given, in any order; the later of two with one name counts. -/
def enumOf (name : String) (variants : List (String × Option Ty)) : Ty :=
  .enum name (Entries.ofList variants)

def truthName (value : Bool) : String := if value then "true" else "false"

def bool : Ty := enumOf boolName [(truthName true, none), (truthName false, none)]

def boolLiteral (value : Bool) : Ty := .enum boolName [(truthName value, none)]

def isAny : Ty → Bool
  | .any => true
  | _ => false

def isNever : Ty → Bool
  | .never => true
  | _ => false

/-- The members of a union; any other type is its own only member. -/
def members : Ty → List Ty
  | .oneOf members => members
  | t => [t]

def numericSet? : Ty → Option NumericSet
  | .number => some .allReals
  | .numeric set => some set
  | _ => none

/-- The truth value of an enum of truth values with a single variant. -/
def boolLiteral? : Ty → Option Bool
  | .enum name [(variant, _)] => if name == boolName then some (variant == truthName true) else none
  | _ => none

/-- Two field lists have as many fields, and the second has every name of the first. -/
def sameShape (fields others : List (String × Ty)) : Bool :=
  fields.length == others.length && fields.all fun (name, _) => Entries.has others name

theorem sizeOf_get? {α : Type} [SizeOf α] {entries : Entries α} {name : String} {value : α}
    (h : entries.get? name = some value) : sizeOf value < sizeOf entries := by
  unfold Entries.get? at h
  cases hf : entries.find? (·.1 == name) with
  | none => simp [hf] at h
  | some entry =>
    rw [hf] at h
    simp only [Option.map_some, Option.some.injEq] at h
    subst h
    have hmem := List.sizeOf_lt_of_mem (List.mem_of_find?_eq_some hf)
    obtain ⟨key, value⟩ := entry
    simp only [Prod.mk.sizeOf_spec] at hmem ⊢
    omega

end Ty
end TypedFlow
