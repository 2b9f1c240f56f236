import TypedFlow.Expr.Basic
import TypedFlow.Number.Text
import TypedFlow.Text.Quoted

/-!
# Expression texts

An expression is written with the parentheses that its reading needs: operators from the loosest to
the tightest are `|`, `&`, `+` and `-`, `*`, the sign, and the access to a field; those with two
operands group to the left.
-/
namespace TypedFlow

def RangeLiteral.text (r : RangeLiteral) : String :=
  (match r.min with
    | some min => min.display ++ (if r.minInclusive then "" else "<")
    | none => "") ++ ".." ++
  (match r.max with
    | some max => (if r.maxInclusive then "" else "<") ++ max.display
    | none => "")

def BinaryOp.symbol : BinaryOp → String
  | .union => "|"
  | .intersection => "&"
  | .add => "+"
  | .subtract => "-"
  | .multiply => "*"

def BinaryOp.precedence : BinaryOp → Nat
  | .union => 1
  | .intersection => 2
  | .add | .subtract => 3
  | .multiply => 4

namespace Expr

def precedence : Expr → Nat
  | .select .. => 0
  | .binary op _ _ => op.precedence
  | .negate _ => 5
  | _ => 6

/-- A text in parentheses if it binds less tightly than its place needs. -/
def parenthesized (precedence least : Nat) (text : String) : String :=
  if precedence < least then "(" ++ text ++ ")" else text

def braces (parts : List String) : String := "\x7b " ++ ", ".intercalate parts ++ " \x7d"

def armText (pattern : String) (binding : Option String) (body : String) : String :=
  pattern ++ (binding.elim "" (" as " ++ ·)) ++ " => " ++ body

mutual

def text : Expr → String
  | .number value => value.display
  | .string value => Text.quote value
  | .range r => r.text
  | .name n => n
  | .path owner member => pathName owner member
  | .field target n => parenthesized target.precedence 6 (text target) ++ "." ++ n
  | .call function args => function ++ "(" ++ ", ".intercalate (texts args) ++ ")"
  | .record n fields => n ++ " " ++ braces (fieldTexts fields)
  | .binary op left right =>
    parenthesized left.precedence op.precedence (text left) ++ " " ++ op.symbol ++ " " ++
      parenthesized right.precedence (op.precedence + 1) (text right)
  | .negate operand => "-" ++ parenthesized operand.precedence 5 (text operand)
  | .select scrutinee arms =>
    "match " ++ parenthesized scrutinee.precedence 1 (text scrutinee) ++ " " ++
      braces (armTexts arms)

def texts : List Expr → List String
  | [] => []
  | e :: exprs => text e :: texts exprs

def fieldTexts : List (String × Expr) → List String
  | [] => []
  | (n, e) :: fields => (n ++ ": " ++ text e) :: fieldTexts fields

def armTexts : List (MatchArm Expr) → List String
  | [] => []
  | ⟨none, binding, body⟩ :: arms => armText "_" binding (text body) :: armTexts arms
  | ⟨some pattern, binding, body⟩ :: arms =>
    armText (text pattern) binding (text body) :: armTexts arms

end

end Expr
end TypedFlow
