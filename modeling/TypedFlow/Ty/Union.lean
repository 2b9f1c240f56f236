import TypedFlow.Ty.Subtype

/-!
# Unions

`unionAll` gathers the members of any number of types: nested unions are flattened, numeric members
become one set, enums of one name are merged variant by variant, and a struct that another one
covers is left out. Merging two payload types is again a union, one level further in, so the
recursion is on the depth to which payloads nest.
-/
namespace TypedFlow.Ty

mutual

/-- The members of a union and of the unions inside it. -/
def flatten : Ty → List Ty
  | .oneOf members => flattenAll members
  | t => [t]

def flattenAll : List Ty → List Ty
  | [] => []
  | t :: types => flatten t ++ flattenAll types

end

/-- What has been gathered for a union so far. -/
structure Gathered where
  any : Bool
  number : Bool
  string : Bool
  numeric : Option NumericSet
  literals : List String
  enums : List (String × List (String × Option Ty))
  structs : List (String × List (String × Ty))

namespace Gathered

def empty : Gathered := ⟨false, false, false, none, [], [], []⟩

/-- Payload types of one variant merged by `join`. No payload type admits every payload. -/
def mergePayload (join : Ty → Ty → Ty) (present : Option (Option Ty)) (payload : Option Ty) :
    Option Ty :=
  match present, payload with
  | none, payload => payload
  | some (some a), some b => some (join a b)
  | some _, _ => none

def mergeVariants (join : Ty → Ty → Ty) (variants others : List (String × Option Ty)) :
    List (String × Option Ty) :=
  others.foldl (fun merged (name, payload) =>
    Entries.insert name (mergePayload join (Entries.get? variants name) payload) merged) variants

/-- Merges an enum into the one of its name, or puts it last. -/
def addEnum (join : Ty → Ty → Ty) (name : String) (variants : List (String × Option Ty)) :
    List (String × List (String × Option Ty)) → List (String × List (String × Option Ty))
  | [] => [(name, variants)]
  | (other, present) :: rest =>
    if other == name then (other, mergeVariants join present variants) :: rest
    else (other, present) :: addEnum join name variants rest

/-- Puts a struct last in place of those it covers, unless one of them covers it. -/
def addStruct (name : String) (fields : List (String × Ty))
    (structs : List (String × List (String × Ty))) : List (String × List (String × Ty)) :=
  let added := Ty.struct name fields
  if structs.any fun (n, f) => added.isSubtype (.struct n f) then structs
  else structs.filter (fun (n, f) => !(Ty.struct n f).isSubtype added) ++ [(name, fields)]

/-- Adds one type that is not a union. -/
def add (join : Ty → Ty → Ty) (g : Gathered) : Ty → Gathered
  | .any => { g with any := true }
  | .never | .oneOf _ => g
  | .number => { g with number := true }
  | .string => { g with string := true }
  | .numeric set => { g with numeric := some (g.numeric.elim set (·.union set)) }
  | .stringLiteral text =>
    if g.literals.contains text then g else { g with literals := g.literals ++ [text] }
  | .enum name variants => { g with enums := addEnum join name variants g.enums }
  | .struct name fields => { g with structs := addStruct name fields g.structs }

def numericMembers (g : Gathered) : List Ty :=
  if g.number then [.number]
  else match g.numeric.map ofNumericSet with
    | none | some .never => []
    | some t => [t]

/-- The members in order: numbers, strings, enums, structs. -/
def memberList (g : Gathered) : List Ty :=
  g.numericMembers ++
    (if g.string then [.string] else g.literals.map .stringLiteral) ++
    (g.enums.filter (!·.2.isEmpty)).map (fun (name, variants) => .enum name variants) ++
    g.structs.map fun (name, fields) => .struct name fields

def build (g : Gathered) : Ty :=
  if g.any then .any
  else match g.memberList with
    | [] => .never
    | [only] => only
    | members => .oneOf members

end Gathered

mutual

/-- How far payload types nest inside each other. Fields do not count: structs are never merged. -/
def payloadDepth : Ty → Nat
  | .enum _ variants => payloadDepthVariants variants + 1
  | .oneOf members => payloadDepthAll members
  | _ => 0

def payloadDepthVariants : List (String × Option Ty) → Nat
  | [] => 0
  | (_, none) :: variants => payloadDepthVariants variants
  | (_, some t) :: variants => max (payloadDepth t) (payloadDepthVariants variants)

def payloadDepthAll : List Ty → Nat
  | [] => 0
  | t :: types => max (payloadDepth t) (payloadDepthAll types)

end

/-- The union of types whose payloads nest less deeply than `level`. -/
def unionAt : Nat → List Ty → Ty
  | 0, _ => .any
  | level + 1, types =>
    ((flattenAll types).foldl (Gathered.add fun a b => unionAt level [a, b]) .empty).build

def unionAll (types : List Ty) : Ty := unionAt (payloadDepthAll types + 1) types

def union (a b : Ty) : Ty := unionAll [a, b]

end TypedFlow.Ty
