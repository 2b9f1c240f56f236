import TypedFlow.Evaluation.Definition
import TypedFlow.Expr.Parse
import TypedFlow.Ty.Union

/-!
# Evaluation

An expression is evaluated by recursion on its structure. Where it opens a definition, evaluation
goes on in a body one level further in. At any moment the open bodies are calls, of which the limit
allows so many, and definitions that are being resolved, no name twice; so their number is bounded,
and `evaluate` starts with that many levels.
-/
namespace TypedFlow
namespace Evaluation

def rangeType (r : RangeLiteral) : Ty :=
  .interval (r.min.elim .unboundedBelow (Bound.of · r.minInclusive))
    (r.max.elim .unboundedAbove (Bound.of · r.maxInclusive))

def memberField (target : Ty) (field : String) (member : Ty) : Except EvaluationError Ty :=
  let missing := .error (.typeMismatch (.fieldAccess field) (.structWith field) target)
  match member with
  | .struct _ fields => (Entries.get? fields field).elim missing .ok
  | _ => missing

def fieldType (target : Ty) (field : String) : Except EvaluationError Ty :=
  match target with
  | .any => .ok .any
  | .never => .ok .never
  | t => return .unionAll (← t.members.mapM (memberField t field))

def binaryType (op : BinaryOp) (a b : Ty) : Except EvaluationError Ty :=
  match op with
  | .union => .ok (a.union b)
  | .intersection => .ok (a.intersect b)
  | .add => Builtin.arithmetic "+" .add a b
  | .subtract => Builtin.arithmetic "-" .sub a b
  | .multiply => Builtin.arithmetic "*" .mul a b

def bindArm (binding : Option String) (t : Ty) (bindings : Bindings) : Bindings :=
  binding.elim bindings fun name => bindings.insert name t

mutual

def evaluateExpr (limit : Nat) (inBody : Evaluator) (scope : Scope) (bindings : Bindings) :
    Expr → Evaluation Ty
  | .number value => return .literal value
  | .string value => return .stringLiteral value
  | .range r => return rangeType r
  | .name n => nameType limit inBody scope bindings n
  | .path owner member => pathType limit inBody scope owner member
  | .field target n => do
    let t ← evaluateExpr limit inBody scope bindings target
    lift (fieldType t n)
  | .call function args => do
    let types ← evaluateAll limit inBody scope bindings args
    callType limit inBody scope function types
  | .record n fields => do
    match ← nameType limit inBody scope [] n with
    | .struct declared slots =>
      let slots ← refineFields limit inBody scope bindings n (.struct declared slots) slots fields
      return .struct declared slots
    | other => throw (.typeMismatch (.record n) .struct other)
  | .binary op left right => do
    let a ← evaluateExpr limit inBody scope bindings left
    let b ← evaluateExpr limit inBody scope bindings right
    lift (binaryType op a b)
  | .negate operand => do
    let t ← evaluateExpr limit inBody scope bindings operand
    lift (Builtin.unaryArithmetic "negation" .neg t)
  | .select scrutinee arms => do
    let t ← evaluateExpr limit inBody scope bindings scrutinee
    if t.isNever then return .never
    evaluateArms limit inBody scope bindings t arms

def evaluateAll (limit : Nat) (inBody : Evaluator) (scope : Scope) (bindings : Bindings) :
    List Expr → Evaluation (List Ty)
  | [] => return []
  | e :: exprs => do
    let t ← evaluateExpr limit inBody scope bindings e
    let types ← evaluateAll limit inBody scope bindings exprs
    return t :: types

/-- Narrows the slots of a struct to the values of the fields given, one after the other. -/
def refineFields (limit : Nat) (inBody : Evaluator) (scope : Scope) (bindings : Bindings)
    (record : String) (declared : Ty) (slots : List (String × Ty)) :
    List (String × Expr) → Evaluation (List (String × Ty))
  | [] => return slots
  | (field, e) :: fields => do
    let value ← evaluateExpr limit inBody scope bindings e
    match Entries.get? slots field with
    | none => throw (.typeMismatch (.recordField field record) (.fieldOf declared) value)
    | some slot =>
      let refined := slot.intersect value
      if refined.isNever then
        throw (.typeMismatch (.recordField field record) (.overlap slot) value)
      refineFields limit inBody scope bindings record declared (Entries.replace field refined slots)
        fields

/-- The body of the first arm whose pattern leaves something of the scrutinee. -/
def evaluateArms (limit : Nat) (inBody : Evaluator) (scope : Scope) (bindings : Bindings)
    (scrutinee : Ty) : List (MatchArm Expr) → Evaluation Ty
  | [] => throw (.incompleteMatch scrutinee)
  | ⟨none, binding, body⟩ :: _ =>
    evaluateExpr limit inBody scope (bindArm binding scrutinee bindings) body
  | ⟨some pattern, binding, body⟩ :: arms => do
    let t ← evaluateExpr limit inBody scope bindings pattern
    let narrowed := scrutinee.intersect t
    if narrowed.isNever then evaluateArms limit inBody scope bindings scrutinee arms
    else evaluateExpr limit inBody scope (bindArm binding narrowed bindings) body

end

/-- Evaluation when bodies may be open to a number of levels. -/
def evaluateAt (limit : Nat) : Nat → Evaluator
  | 0 => evaluateExpr limit fun _ _ _ => throw (.recursionLimit "" limit)
  | levels + 1 => evaluateExpr limit (evaluateAt limit levels)

end Evaluation

/-- Calls that may be open at once unless something else is asked for. -/
def defaultCallDepth : Nat := 64

/-- The type of an expression, when at most `limit` calls may be open at once. -/
def evaluate (scope : Scope) (limit : Nat) (bindings : Bindings) (e : Expr) :
    Except EvaluationError Ty :=
  ((Evaluation.evaluateAt limit (limit + scope.size) scope bindings e).run.run .empty).1

/-- The type of the expression that a source text denotes. -/
def evaluateSource (scope : Scope) (limit : Nat) (bindings : Bindings) (source : String) :
    Except EvaluationError Ty :=
  match Expr.parse source with
  | .ok e => evaluate scope limit bindings e
  | .error e => .error (.parse e)

end TypedFlow
