import TypedFlow.Expr.Basic
import TypedFlow.Source.Reader

/-!
# Reading expressions

From the loosest to the tightest: `|`, `&`, `+` and `-`, `*`, the sign, access to a field. Every
operator, sign and access uses up a level of nesting, and so does every expression inside another;
the recursion is on the levels that are left. `inner` stands for the expressions further in.
-/
namespace TypedFlow.Expr
open Reader

/-- No level is left for what would come next. -/
def tooDeep {α : Type} : Reader α := fail .nestedTooDeep

/-- If an operator comes next, its right operand, and then whatever continues the chain. -/
def chainStep (op? : Symbol → Option BinaryOp) (operand : Reader Expr)
    (continued : Expr → Reader Expr) (left : Expr) : Reader Expr := do
  match ← peek with
  | some (.symbol s) =>
    match op? s with
    | some op =>
      skip
      descend
      continued (.binary op left (← operand))
    | none => return left
  | _ => return left

/-- A chain of operators of equal precedence after its first operand, grouped to the left. -/
def chain (op? : Symbol → Option BinaryOp) (operand : Reader Expr) : Nat → Expr → Reader Expr
  | 0 => chainStep op? operand fun _ => tooDeep
  | levels + 1 => chainStep op? operand (chain op? operand levels)

def accessStep (continued : Expr → Reader Expr) (target : Expr) : Reader Expr := do
  if ← eat .dot then
    descend
    continued (.field target (← identifier "field name"))
  else return target

def accesses : Nat → Expr → Reader Expr
  | 0 => accessStep fun _ => tooDeep
  | levels + 1 => accessStep (accesses levels)

/-- A range after its operator. A number that follows directly is its upper end. -/
def rangeFrom (min : Option Number) (mark : RangeMark) : Reader Expr := do
  let max ← match ← peek, ← peekSecond with
    | some (.number n), _ => do
      skip
      pure (some n)
    | some (.symbol .minus), some (.number n) => do
      skip
      skip
      pure (some (-n))
    | _, _ => pure none
  if max.isNone && !mark.maxInclusive then fail .rangeWithoutMax
  return .range ⟨min, max, mark.minInclusive, mark.maxInclusive⟩

/-- A number, or the range that it begins. -/
def numberOrRange (value : Number) : Reader Expr := do
  match ← peek with
  | some (.range mark) =>
    skip
    rangeFrom (some value) mark
  | _ => return .number value

def callOf (inner : Reader Expr) (function : String) : Reader Expr := do
  expect .openParen
  return .call function (← withRecords true (delimited .closeParen inner))

/-- A name with the type or value after its colon. -/
def labelled (inner : Reader Expr) (role : String) : Reader (String × Expr) := do
  let label ← identifier role
  expect .colon
  return (label, ← inner)

def recordOf (inner : Reader Expr) (owner : String) : Reader Expr := do
  expect .openBrace
  return .record owner (← withRecords true (delimited .closeBrace (labelled inner "field name")))

def reference (inner : Reader Expr) : Reader Expr := do
  let n ← identifier "a name"
  if ← eat .pathSeparator then
    let member ← identifier "a member name"
    match ← peek with
    | some (.symbol .openParen) => callOf inner (pathName n member)
    | _ => return .path n member
  else
    match ← peek with
    | some (.symbol .openParen) => callOf inner n
    | some (.symbol .openBrace) => if (← read).records then recordOf inner n else return .name n
    | _ => return .name n

def arm (inner : Reader Expr) : Reader (MatchArm Expr) := do
  let pattern ← if ← eatWord "_" then pure none else some <$> inner
  let binding ← if ← eatWord "as" then some <$> identifier "binding name" else pure none
  expect .arrow
  return ⟨pattern, binding, ← inner⟩

def selectOf (inner : Reader Expr) : Reader Expr := do
  let scrutinee ← withRecords false inner
  expect .openBrace
  let arms ← withRecords true (delimited .closeBrace (arm inner))
  if arms.isEmpty then fail .emptyMatch
  return .select scrutinee arms

def primary (inner : Reader Expr) : Reader Expr := do
  match ← peek with
  | some (.number n) =>
    skip
    numberOrRange n
  | some (.text s) =>
    skip
    return .string s
  | some (.range mark) =>
    if !mark.minInclusive then fail .rangeWithoutMin
    skip
    rangeFrom none mark
  | some (.symbol .openParen) =>
    skip
    let e ← withRecords true inner
    expect .closeParen
    return e
  | some (.word w) =>
    if w = "match" then
      skip
      selectOf inner
    else reference inner
  | _ => expected "an expression"

/-- A sign directly before a number belongs to the number; any other one negates what follows. -/
def signStep (operand negated : Reader Expr) : Reader Expr := do
  if ← eat .minus then
    match ← peek with
    | some (.number n) =>
      skip
      numberOrRange (-n)
    | _ =>
      descend
      return .negate (← negated)
  else operand

def signed (operand : Reader Expr) : Nat → Reader Expr
  | 0 => signStep operand tooDeep
  | levels + 1 => signStep operand (signed operand levels)

def productOp? : Symbol → Option BinaryOp
  | .star => some .multiply
  | _ => none

def sumOp? : Symbol → Option BinaryOp
  | .plus => some .add
  | .minus => some .subtract
  | _ => none

def intersectionOp? : Symbol → Option BinaryOp
  | .ampersand => some .intersection
  | _ => none

def unionOp? : Symbol → Option BinaryOp
  | .bar => some .union
  | _ => none

/-- Operands joined by operators of one precedence. -/
def joined (op? : Symbol → Option BinaryOp) (levels : Nat) (operand : Reader Expr) :
    Reader Expr := do
  chain op? operand levels (← operand)

/-- An expression that may use up the levels given besides its own. -/
def operators (levels : Nat) (inner : Reader Expr) : Reader Expr :=
  joined unionOp? levels <| joined intersectionOp? levels <| joined sumOp? levels <|
    joined productOp? levels <| signed (do accesses levels (← primary inner)) levels

def expressionAt : Nat → Reader Expr
  | 0 => tooDeep
  | levels + 1 => nested (operators levels (expressionAt levels))

def expression : Reader Expr := expressionAt maxNesting

def parse (source : String) : Except ParseError Expr :=
  Reader.run (do
    let e ← expression
    expectEnd
    return e) source

end TypedFlow.Expr
