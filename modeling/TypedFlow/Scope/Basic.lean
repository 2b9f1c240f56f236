import TypedFlow.Builtin
import TypedFlow.Declaration.Basic
import TypedFlow.Dictionary
import TypedFlow.Expr.References

/-!
# Scopes

A scope is a chain of layers from the innermost to the root. Each layer has definitions and the
types of its structs and enums. A name means the nearest definition, and that definition is read in
the part of the chain that begins with its own layer.
-/
namespace TypedFlow

inductive Definition
  | declared (declaration : Declaration)
  | builtin (function : Builtin)

def Definition.name : Definition → String
  | .declared d => d.name
  | .builtin f => f.name

structure Layer where
  name : String
  definitions : Entries Definition
  resolved : Entries Ty

abbrev Scope := List Layer

namespace Scope

def local? : Scope → String → Option Definition
  | [], _ => none
  | layer :: _, name => layer.definitions.get? name

/-- The nearest definition of a name, with the scope that holds it. -/
def lookup : Scope → String → Option (Definition × Scope)
  | [], _ => none
  | layer :: outer, name =>
    match layer.definitions.get? name with
    | some definition => some (definition, layer :: outer)
    | none => lookup outer name

/-- The type of a struct or enum of the innermost layer. -/
def resolved? : Scope → String → Option Ty
  | [], _ => none
  | layer :: _, name => layer.resolved.get? name

def size : Scope → Nat
  | [] => 0
  | layer :: outer => layer.definitions.length + size outer

def resolve (scope : Scope) (name : String) : Except EvaluationError (Definition × Scope) :=
  match scope.lookup name with
  | some found => .ok found
  | none => .error (.undefinedReference name)

/-- What stands before and after the first path separator. -/
def splitPath : List Char → Option (List Char × List Char)
  | ':' :: ':' :: rest => some ([], rest)
  | c :: rest => (splitPath rest).map fun (owner, member) => (c :: owner, member)
  | [] => none

def pathParts? (path : String) : Option (String × String) :=
  (splitPath path.toList).map fun (owner, member) => (String.ofList owner, String.ofList member)

/-- A name is defined if a definition has it, or if it is the path of a variant. -/
def isDefined (scope : Scope) (name : String) : Bool :=
  (scope.lookup name).isSome ||
    match pathParts? name with
    | some (owner, member) =>
      match scope.lookup owner with
      | some (.declared (.enum _ variants), _) => Entries.has variants member
      | _ => false
    | none => false

/-- The first reference of an expression that is neither bound nor defined. -/
def firstUndefined (scope : Scope) (bound : List String) (e : Expr) : Option String :=
  (e.references bound).find? fun name => !scope.isDefined name

end Scope
end TypedFlow
