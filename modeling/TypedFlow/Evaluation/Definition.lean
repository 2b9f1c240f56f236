import TypedFlow.Evaluation.Frame
import TypedFlow.Scope.Basic

/-!
# Opening definitions

How names, paths and calls get their types. Definitions have bodies of their own, and `inBody`
stands for the evaluation of an expression inside a body; it is one level further in than the
expression that leads there. Bodies are read in the scope that holds their definition and never see
the bindings of whoever uses them.
-/
namespace TypedFlow

abbrev Bindings := Entries Ty

abbrev Evaluator := Scope → Bindings → Expr → Evaluation Ty

namespace Evaluation

/-- The cached type of a struct or enum, or else the type found by resolving it. -/
def resolvedOr (holder : Scope) (name : String) (resolution : Evaluation Ty) : Evaluation Ty :=
  match holder.resolved? name with
  | some t => return t
  | none => whileResolving name resolution

def bindArguments (inBody : Evaluator) (holder : Scope) (function : String) :
    List (String × Expr) → List Ty → Bindings → Evaluation Bindings
  | (param, e) :: params, arg :: args, locals => do
    let declared ← inBody holder [] e
    let narrowed := arg.intersect declared
    if narrowed.isNever && !arg.isNever then
      throw (.typeMismatch (.argument param function) (.overlap declared) arg)
    bindArguments inBody holder function params args (locals.insert param narrowed)
  | _, _, locals => return locals

def callFunction (limit : Nat) (inBody : Evaluator) (holder : Scope) (function : String)
    (params : List (String × Expr)) (body : Expr) (args : List Ty) : Evaluation Ty := do
  if args.length ≠ params.length then
    throw (.arity function (.exactly params.length) args.length)
  withinCall limit function do
    let locals ← bindArguments inBody holder function params args []
    inBody holder locals body

/-- The type of a definition that is used without arguments. -/
def openDefinition (limit : Nat) (inBody : Evaluator) (holder : Scope) : Definition → Evaluation Ty
  | .declared (.struct name fields) => resolvedOr holder name do
    return .struct name (← fields.mapM fun (field, e) => return (field, ← inBody holder [] e))
  | .declared (.enum name variants) => resolvedOr holder name do
    let variants ← variants.mapM fun (variant, payload) => do
      match payload with
      | some e => return (variant, some (← inBody holder [] e))
      | none => return (variant, none)
    return .enumOf name variants
  | .declared (.alias name value) => resolvedOr holder name (inBody holder [] value)
  | .declared (.function name params body) => callFunction limit inBody holder name params body []
  | .builtin f => lift (f.apply [])

/-- The type of a name. Bindings come before definitions. -/
def nameType (limit : Nat) (inBody : Evaluator) (scope : Scope) (bindings : Bindings)
    (name : String) : Evaluation Ty :=
  match bindings.get? name with
  | some t => return t
  | none => do
    let (definition, holder) ← lift (scope.resolve name)
    openDefinition limit inBody holder definition

/-- The variants of an enum that is named as the owner in a path. -/
def variantsOf (limit : Nat) (inBody : Evaluator) (scope : Scope) (owner path : String) :
    Evaluation (List (String × Option Ty)) :=
  match scope.lookup owner with
  | some (.declared (.enum name variants), holder) => do
    match ← openDefinition limit inBody holder (.declared (.enum name variants)) with
    | .enum _ variants => return variants
    | other => throw (.typeMismatch (.path path) .enum other)
  | _ => throw (.undefinedReference path)

/-- The type of a path: a definition of that full name, or a variant with all its payloads. -/
def pathType (limit : Nat) (inBody : Evaluator) (scope : Scope) (owner member : String) :
    Evaluation Ty :=
  let path := pathName owner member
  match scope.lookup path with
  | some (definition, holder) => openDefinition limit inBody holder definition
  | none => do
    let variants ← variantsOf limit inBody scope owner path
    match Entries.get? variants member with
    | some payload => return .enum owner [(member, payload)]
    | none => throw (.undefinedReference path)

/-- A variant with its payload narrowed to an argument. -/
def variantCall (path owner member : String) (payload : Option Ty) (args : List Ty) :
    Except EvaluationError Ty :=
  match payload, args with
  | none, args => .error (.arity path (.exactly 0) args.length)
  | some declared, [arg] =>
    if arg.isNever then .ok .never
    else
      let narrowed := arg.intersect declared
      if narrowed.isNever then .error (.typeMismatch (.variant path) (.overlap declared) arg)
      else .ok (.enum owner [(member, some narrowed)])
  | some _, args => .error (.arity path (.exactly 1) args.length)

/-- The type of a call of a function, a built-in or a variant. -/
def callType (limit : Nat) (inBody : Evaluator) (scope : Scope) (function : String)
    (args : List Ty) : Evaluation Ty :=
  match scope.lookup function with
  | some (.declared (.function name params body), holder) =>
    callFunction limit inBody holder name params body args
  | some (.builtin f, _) => lift (f.apply args)
  | some (other, holder) => do
    throw (.typeMismatch (.call function) .function (← openDefinition limit inBody holder other))
  | none =>
    match Scope.pathParts? function with
    | none => throw (.undefinedReference function)
    | some (owner, member) => do
      let variants ← variantsOf limit inBody scope owner function
      match Entries.get? variants member with
      | some payload => lift (variantCall function owner member payload args)
      | none => throw (.undefinedReference function)

end Evaluation
end TypedFlow
