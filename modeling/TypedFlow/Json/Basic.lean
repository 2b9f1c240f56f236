import TypedFlow.Dictionary
import TypedFlow.Number.Arithmetic

/-!
# JSON values

Integers of 64 bits are kept apart from other numbers. The members of an object stand as they were
written, repeated names included; `normal?` gives the reading in which an object is a dictionary.
-/
namespace TypedFlow

inductive Json
  | null
  | bool (value : Bool)
  | integer (value : Int)
  | float (value : Number)
  | string (text : String)
  | array (items : List Json)
  | object (members : List (String × Json))
  /-- A well-formed piece without a value: an unpaired surrogate, or a number out of range. It can
  be skipped but not used. -/
  | unreadable
deriving Inhabited

namespace Json

mutual

/-- How many arrays and objects are open at the deepest point. -/
def depth : Json → Nat
  | .array items => depthItems items + 1
  | .object members => depthMembers members + 1
  | _ => 0

def depthItems : List Json → Nat
  | [] => 0
  | j :: items => max (depth j) (depthItems items)

def depthMembers : List (String × Json) → Nat
  | [] => 0
  | (_, j) :: members => max (depth j) (depthMembers members)

end

mutual

/-- The value with its objects as dictionaries, the last of repeated names counting; nothing if a
piece of it is unreadable. -/
def normal? : Json → Option Json
  | .unreadable => none
  | .array items => (normalItems? items).map .array
  | .object members => (normalMembers? members).map fun m => .object (Entries.ofList m)
  | j => some j

def normalItems? : List Json → Option (List Json)
  | [] => some []
  | j :: items => do
    let j ← normal? j
    let items ← normalItems? items
    return j :: items

def normalMembers? : List (String × Json) → Option (List (String × Json))
  | [] => some []
  | (name, j) :: members => do
    let j ← normal? j
    let members ← normalMembers? members
    return (name, j) :: members

end

/-- The number nearest to an integer. -/
def numberOfInteger (value : Int) : Number :=
  .ofUnits (value < 0) (value.natAbs * Number.unitsPerOne)

/-- The number that a JSON number stands for. -/
def number? : Json → Option Number
  | .integer value => some (numberOfInteger value)
  | .float value => some value
  | _ => none

end Json
end TypedFlow
