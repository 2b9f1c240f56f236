import TypedFlow.Evaluation.Error
import TypedFlow.Ty.Intersection

/-!
# Built-in functions

The functions that every program may use: type constructors, interval arithmetic, logic on truth
values and the concatenation of strings. A built-in checks the number of its arguments before it
looks at them.
-/
namespace TypedFlow

inductive Builtin
  | any
  | never
  | number
  | string
  | int
  | add
  | sub
  | mul
  | neg
  | abs
  | min
  | max
  | not
  | and
  | or
  | concat
deriving DecidableEq

namespace Builtin

def all : List Builtin :=
  [.any, .never, .number, .string, .int, .add, .sub, .mul, .neg, .abs, .min, .max, .not, .and, .or,
    .concat]

def name : Builtin → String
  | .any => "any"
  | .never => "never"
  | .number => "number"
  | .string => "string"
  | .int => "int"
  | .add => "add"
  | .sub => "sub"
  | .mul => "mul"
  | .neg => "neg"
  | .abs => "abs"
  | .min => "min"
  | .max => "max"
  | .not => "not"
  | .and => "and"
  | .or => "or"
  | .concat => "concat"

def ofName? (name : String) : Option Builtin := all.find? (·.name == name)

def arity : Builtin → Arity
  | .any | .never | .number | .string => .exactly 0
  | .int => ⟨0, 1⟩
  | .neg | .abs | .not => .exactly 1
  | .add | .sub | .mul | .min | .max | .and | .or | .concat => .exactly 2

/-- The numbers of an operand that is neither `any` nor `never`. -/
def numericOperand (operation : String) (t : Ty) : Except EvaluationError NumericSet :=
  match t.numericSet? with
  | some set => .ok set
  | none => .error (.typeMismatch (.operation operation) .number t)

/-- An operation on numbers. `never` wins over `any`, and both over everything else. -/
def arithmetic (operation : String) (op : NumericSet → NumericSet → NumericSet) (a b : Ty) :
    Except EvaluationError Ty :=
  if a.isNever || b.isNever then .ok .never
  else if a.isAny || b.isAny then .ok .any
  else do
    let x ← numericOperand operation a
    let y ← numericOperand operation b
    return .ofNumericSet (op x y)

def unaryArithmetic (operation : String) (op : NumericSet → NumericSet) (a : Ty) :
    Except EvaluationError Ty :=
  if a.isNever then .ok .never
  else if a.isAny then .ok .any
  else return .ofNumericSet (op (← numericOperand operation a))

/-- The truth values that an argument may take. -/
def truthValues (operation : String) : Ty → Except EvaluationError (List Bool)
  | .any => .ok [true, false]
  | .enum name variants =>
    if name == Ty.boolName then
      .ok ([true, false].filter fun value => Entries.has variants (Ty.truthName value))
    else .error (.typeMismatch (.operation operation) .truthValue (.enum name variants))
  | t => .error (.typeMismatch (.operation operation) .truthValue t)

def ofTruthValues (values : List Bool) : Ty :=
  match values.contains true, values.contains false with
  | true, true => .bool
  | true, false => .boolLiteral true
  | false, true => .boolLiteral false
  | false, false => .never

/-- A function of truth values, carried out on all that the arguments may take. -/
def logic (operation : String) (op : Bool → Bool → Bool) (a b : Ty) :
    Except EvaluationError Ty := do
  let xs ← truthValues operation a
  let ys ← truthValues operation b
  return ofTruthValues (xs.flatMap fun x => ys.map (op x))

def negation (operation : String) (a : Ty) : Except EvaluationError Ty := do
  return ofTruthValues ((← truthValues operation a).map (!·))

/-- The integers among the numbers of a type, or all of them. -/
def integersOf : Ty → Except EvaluationError Ty
  | .any => .ok .int
  | .never => .ok .never
  | t => return .ofNumericSet ((← numericOperand Builtin.int.name t).intersect .allIntegers)

def stringOperand (t : Ty) : Except EvaluationError Unit :=
  if t.isAny || t.isSubtype .string then .ok ()
  else .error (.typeMismatch (.operation Builtin.concat.name) .string t)

def concatenation (a b : Ty) : Except EvaluationError Ty :=
  if a.isNever || b.isNever then .ok .never
  else do
    stringOperand a
    stringOperand b
    match a, b with
    | .stringLiteral s, .stringLiteral t => return .stringLiteral (s ++ t)
    | _, _ => return .string

/-- The result for arguments whose number is accepted. -/
def result (f : Builtin) (args : List Ty) : Except EvaluationError Ty :=
  match f, args with
  | .any, _ => .ok .any
  | .never, _ => .ok .never
  | .number, _ => .ok .number
  | .string, _ => .ok .string
  | .int, [] => .ok .int
  | .int, a :: _ => integersOf a
  | .add, a :: b :: _ => arithmetic f.name .add a b
  | .sub, a :: b :: _ => arithmetic f.name .sub a b
  | .mul, a :: b :: _ => arithmetic f.name .mul a b
  | .neg, a :: _ => unaryArithmetic f.name .neg a
  | .abs, a :: _ => unaryArithmetic f.name .abs a
  | .min, a :: b :: _ => arithmetic f.name .minimum a b
  | .max, a :: b :: _ => arithmetic f.name .maximum a b
  | .not, a :: _ => negation f.name a
  | .and, a :: b :: _ => logic f.name (· && ·) a b
  | .or, a :: b :: _ => logic f.name (· || ·) a b
  | .concat, a :: b :: _ => concatenation a b
  | _, _ => .ok .never

def apply (f : Builtin) (args : List Ty) : Except EvaluationError Ty :=
  if f.arity.accepts args.length then f.result args
  else .error (.arity f.name f.arity args.length)

end Builtin
end TypedFlow
