import TypedFlow.Json.Record
import TypedFlow.Scope.Build

/-!
# Node kinds

A kind fixes the sockets of its nodes. A socket may declare a type by an expression; that of an
input can use the data of the node, that of an output the types of the inputs as well.
-/
namespace TypedFlow

inductive NodeCategory
  | input
  | transform
  | output
deriving DecidableEq

namespace NodeCategory

def name : NodeCategory → String
  | .input => "input"
  | .transform => "transform"
  | .output => "output"

def ofName? (name : String) : Option NodeCategory :=
  [NodeCategory.input, .transform, .output].find? (·.name == name)

end NodeCategory

structure InputSocket where
  label : String
  /-- No type accepts everything. -/
  declared : Option Expr
  /-- The most connections; without it the graph decides. -/
  arity : Option Nat

structure OutputSocket where
  label : String
  /-- No type produces `any`. -/
  declared : Option Expr

structure NodeKind where
  name : String
  category : NodeCategory
  inputs : List InputSocket
  outputs : List OutputSocket

/-- A socket as it is written, its type still a source text. -/
structure InputDefinition where
  label : String
  type : Option String
  arity : Option Nat

structure OutputDefinition where
  label : String
  type : Option String

/-- A kind as it is written. -/
structure KindDefinition where
  name : String
  category : NodeCategory
  inputs : List InputDefinition
  outputs : List OutputDefinition

/-- The name by which sockets see the data of their node. -/
def dataBinding : String := "data"

/-- The name by which outputs see the type of an input. -/
def inputBinding (index : Nat) : String := "Input" ++ toString index

namespace NodeKind

/-- The type that a socket declares. -/
def declaredType (kind label : String) : Option String → Except DefinitionError (Option Expr)
  | none => .ok none
  | some source =>
    match Expr.parse source with
    | .ok e => .ok (some e)
    | .error e => .error (.invalidKind kind ("socket '" ++ label ++ "': " ++ e.message))

/-- Reads the types of all sockets in order. The first that cannot be read is the error. -/
def ofDefinition (d : KindDefinition) : Except DefinitionError NodeKind := do
  let inputs ← d.inputs.mapM fun s =>
    return ⟨s.label, ← declaredType d.name s.label s.type, s.arity⟩
  let outputs ← d.outputs.mapM fun s =>
    return ⟨s.label, ← declaredType d.name s.label s.type⟩
  return ⟨d.name, d.category, inputs, outputs⟩

/-- The first undefined reference of a socket, with the label of the socket. -/
def firstUndefined (scope : Scope) (kind : NodeKind) : Option (String × String) :=
  let undefined (bound : List String) (label : String) (declared : Option Expr) :=
    (declared.bind (scope.firstUndefined bound)).map (label, ·)
  let inputNames := (List.range kind.inputs.length).map inputBinding
  (kind.inputs.findSome? fun s => undefined [dataBinding] s.label s.declared).or
    (kind.outputs.findSome? fun s => undefined (inputNames ++ [dataBinding]) s.label s.declared)

def checkReferences (scope : Scope) (kind : NodeKind) : Except DefinitionError Unit :=
  match kind.firstUndefined scope with
  | some (label, missing) =>
    .error (.invalidKind kind.name
      ("socket '" ++ label ++ "' references undefined '" ++ missing ++ "'"))
  | none => .ok ()

end NodeKind

namespace KindDefinition

def inputOfJson? (j : Json) : Option InputDefinition := do
  match ← j.record? [["label"], ["type"], ["arity"]] with
  | [label, type, arity] => return {
      label := ← Json.required? Json.string? label
      type := ← Json.optional? Json.string? type
      arity := ← Json.optional? Json.count? arity }
  | _ => none

def outputOfJson? (j : Json) : Option OutputDefinition := do
  match ← j.record? [["label"], ["type"]] with
  | [label, type] => return {
      label := ← Json.required? Json.string? label
      type := ← Json.optional? Json.string? type }
  | _ => none

def ofJson? (j : Json) : Option KindDefinition := do
  match ← j.record? [["name"], ["category"], ["inputs"], ["outputs"]] with
  | [name, category, inputs, outputs] => return {
      name := ← Json.required? Json.string? name
      category := ← Json.required? (fun j => j.word?.bind NodeCategory.ofName?) category
      inputs := ← Json.defaulted? [] (Json.list? inputOfJson?) inputs
      outputs := ← Json.defaulted? [] (Json.list? outputOfJson?) outputs }
  | _ => none

def optionalString (s : Option String) : Json := s.elim .null .string

def toJson (d : KindDefinition) : Json :=
  .object [("name", .string d.name), ("category", .string d.category.name),
    ("inputs", .array (d.inputs.map fun s => .object [("label", .string s.label),
      ("type", optionalString s.type), ("arity", s.arity.elim .null fun n => .integer n)])),
    ("outputs", .array (d.outputs.map fun s => .object [("label", .string s.label),
      ("type", optionalString s.type)]))]

end KindDefinition
end TypedFlow
