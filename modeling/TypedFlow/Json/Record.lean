import TypedFlow.Json.Numeral

/-!
# Records in JSON

A record is an object that gives each known field at most once; other members are skipped. It may
also be an array of the fields in order, cut short at the end. A field may be absent, which the
reader of the record decides about; `null` counts as absent for optional fields only.
-/
namespace TypedFlow.Json

/-- The one value under any of the names of a field. Two values are an error. -/
def fieldValue? (members : List (String × Json)) (names : List String) : Option (Option Json) :=
  match members.filter fun (name, _) => names.contains name with
  | [] => some none
  | [(_, value)] => some (some value)
  | _ => none

/-- The values of the known fields, each given by the names it goes by. -/
def record? (fields : List (List String)) : Json → Option (List (Option Json))
  | .object members => fields.mapM (fieldValue? members)
  | .array items =>
    if items.length ≤ fields.length then
      some (items.map some ++ List.replicate (fields.length - items.length) none)
    else none
  | _ => none

variable {α : Type}

/-- A field that has to be there. -/
def required? (read : Json → Option α) (value : Option Json) : Option α := value.bind read

/-- A field that falls back to a default when it is absent. -/
def defaulted? (fallback : α) (read : Json → Option α) : Option Json → Option α
  | none => some fallback
  | some value => read value

/-- A field that may be absent or `null`. -/
def optional? (read : Json → Option α) : Option Json → Option (Option α)
  | none | some .null => some none
  | some value => (read value).map some

def string? : Json → Option String
  | .string text => some text
  | _ => none

def bool? : Json → Option Bool
  | .bool value => some value
  | _ => none

/-- A count: an integer that is not negative and fits 64 bits. -/
def count? : Json → Option Nat
  | .integer value => if 0 ≤ value && value < wordLimit then some value.natAbs else none
  | _ => none

def list? (read : Json → Option α) : Json → Option (List α)
  | .array items => items.mapM read
  | _ => none

/-- A bare word: a string, or an object with the word as its only name and no value. -/
def word? : Json → Option String
  | .string text => some text
  | .object [(name, .null)] => some name
  | _ => none

/-- A dictionary in normal form that leaves room for the levels around it. -/
def dictionary? (levels : Nat) (j : Json) : Option (List (String × Json)) :=
  match j.normal? with
  | some (.object members) => if j.depth ≤ levels then some members else none
  | _ => none

end TypedFlow.Json
