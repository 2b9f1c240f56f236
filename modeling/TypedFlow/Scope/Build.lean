import TypedFlow.Declaration.Parse
import TypedFlow.Evaluation.Basic

/-!
# Building scopes

Definitions are gathered one by one, and no name may be declared twice in a layer. When the layer
is complete its references are checked, and its structs, enums and aliases are resolved, each in
order of their names. A struct or enum that refers to something of the wrong kind is `any`; one that
refers to itself without a call in between is an error, and so is such an alias.
-/
namespace TypedFlow

inductive DefinitionError
  | duplicate (name scope : String)
  | undefinedReference (name definition : String)
  | recursive (name : String)
  | invalidKind (kind message : String)
  | parse (error : ParseError)

def DefinitionError.message : DefinitionError → String
  | .duplicate n s => "Definition '" ++ n ++ "' is already declared in scope '" ++ s ++ "'"
  | .undefinedReference n d =>
    "Definition '" ++ d ++ "' references '" ++ n ++ "', which is not defined in any enclosing scope"
  | .recursive n => "Definition '" ++ n ++ "' refers to itself without an intervening function call"
  | .invalidKind k m => "Node kind '" ++ k ++ "' is invalid: " ++ m
  | .parse e => e.message

structure ScopeBuilder where
  name : String
  outer : Scope
  definitions : Entries Definition

namespace ScopeBuilder

def new (name : String) (outer : Scope) : ScopeBuilder := ⟨name, outer, []⟩

/-- Registers a built-in, over any definition of its name. -/
def withBuiltin (b : ScopeBuilder) (f : Builtin) : ScopeBuilder :=
  { b with definitions := b.definitions.insert f.name (.builtin f) }

def add (b : ScopeBuilder) (d : Declaration) : Except DefinitionError ScopeBuilder :=
  if b.definitions.has d.name then .error (.duplicate d.name b.name)
  else .ok { b with definitions := b.definitions.insert d.name (.declared d) }

/-- Adds declarations in order up to the first that cannot be added. What was added stays. -/
def addAll (b : ScopeBuilder) : List Declaration → ScopeBuilder × Except DefinitionError Unit
  | [] => (b, .ok ())
  | d :: declarations =>
    match b.add d with
    | .ok b => b.addAll declarations
    | .error e => (b, .error e)

/-- Adds the declarations of a source, none if it cannot be read. -/
def addSource (b : ScopeBuilder) (source : String) : ScopeBuilder × Except DefinitionError Unit :=
  match Declaration.parse source with
  | .ok declarations => b.addAll declarations
  | .error e => (b, .error (.parse e))

def firstUndefined (scope : Scope) : Declaration → Option String
  | .struct _ fields => fields.findSome? fun (_, e) => scope.firstUndefined [] e
  | .enum _ variants =>
    variants.findSome? fun (_, payload) => payload.bind (scope.firstUndefined [])
  | .function _ params body =>
    (params.findSome? fun (_, e) => scope.firstUndefined [] e).or
      (scope.firstUndefined (params.map (·.1)) body)
  | .alias _ value => scope.firstUndefined [] value

def checkReferences (scope : Scope) (name : String) : Definition → Except DefinitionError Unit
  | .builtin _ => .ok ()
  | .declared d =>
    match firstUndefined scope d with
    | some missing => .error (.undefinedReference missing name)
    | none => .ok ()

/-- What resolving a definition contributes to a layer: the type of a struct or an enum. Functions
are not resolved, and the type of an alias is only looked at for errors. -/
def resolution (scope : Scope) (name : String) (d : Definition) :
    Except DefinitionError (Entries Ty) :=
  let resolve (keep : Bool) : Except DefinitionError (Entries Ty) :=
    match evaluate scope defaultCallDepth [] (.name name) with
    | .ok t => .ok (if keep then [(name, t)] else [])
    | .error (.undefinedReference missing) => .error (.undefinedReference missing name)
    | .error (.recursionLimit _ _) => .error (.recursive name)
    | .error _ => .ok (if keep then [(name, .any)] else [])
  match d with
  | .declared (.struct ..) | .declared (.enum ..) => resolve true
  | .declared (.alias ..) => resolve false
  | _ => .ok []

def build (b : ScopeBuilder) : Except DefinitionError Scope := do
  let scope : Scope := ⟨b.name, b.definitions, []⟩ :: b.outer
  for (name, d) in b.definitions do checkReferences scope name d
  let resolved ← b.definitions.mapM fun (name, d) => resolution scope name d
  return ⟨b.name, b.definitions, resolved.flatten⟩ :: b.outer

end ScopeBuilder
end TypedFlow
