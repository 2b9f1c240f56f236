import TypedFlow.Source.Error
import TypedFlow.Ty.Text

/-!
# Evaluation errors

An evaluation error says what was attempted, what it needed and what it found.
-/
namespace TypedFlow

/-- The numbers of arguments that are accepted, both ends included. -/
structure Arity where
  min : Nat
  max : Nat
deriving DecidableEq

namespace Arity

def exactly (count : Nat) : Arity := ⟨count, count⟩

def accepts (a : Arity) (count : Nat) : Bool := a.min ≤ count && count ≤ a.max

def text (a : Arity) : String :=
  if a.min = a.max then toString a.min else toString a.min ++ " to " ++ toString a.max

end Arity

/-- What was being done when a type did not fit. -/
inductive Attempt
  | operation (name : String)
  | fieldAccess (field : String)
  | path (path : String)
  | call (function : String)
  | variant (path : String)
  | argument (param function : String)
  | record (name : String)
  | recordField (field record : String)

def Attempt.text : Attempt → String
  | .operation n => n
  | .fieldAccess f => "field access '." ++ f ++ "'"
  | .path p => "path '" ++ p ++ "'"
  | .call f => "call to '" ++ f ++ "'"
  | .variant p => "variant '" ++ p ++ "'"
  | .argument p f => "argument '" ++ p ++ "' of '" ++ f ++ "'"
  | .record n => "struct literal '" ++ n ++ "'"
  | .recordField f n => "field '" ++ f ++ "' of struct literal '" ++ n ++ "'"

/-- What a type should have been. -/
inductive Requirement
  | number
  | string
  | truthValue
  | enum
  | function
  | struct
  | structWith (field : String)
  | fieldOf (struct : Ty)
  | overlap (declared : Ty)

def Requirement.text : Requirement → String
  | .number => "number"
  | .string => "string"
  | .truthValue => Ty.boolName
  | .enum => "an enum"
  | .function => "a function"
  | .struct => "a struct"
  | .structWith f => "a struct with field '" ++ f ++ "'"
  | .fieldOf t => "a field of " ++ t.text
  | .overlap t => t.text

inductive EvaluationError
  | undefinedReference (name : String)
  | typeMismatch (attempt : Attempt) (required : Requirement) (found : Ty)
  | arity (function : String) (accepted : Arity) (found : Nat)
  | incompleteMatch (scrutinee : Ty)
  | recursionLimit (function : String) (depth : Nat)
  | parse (error : ParseError)

def EvaluationError.message : EvaluationError → String
  | .undefinedReference n => "'" ++ n ++ "' is not defined"
  | .typeMismatch attempt required found =>
    "Type mismatch during '" ++ attempt.text ++ "': expected " ++ required.text ++ ", but found " ++
      found.text
  | .arity f accepted found =>
    "'" ++ f ++ "' expects " ++ accepted.text ++ " argument(s), but received " ++ toString found
  | .incompleteMatch t => "No match arm accepts a value of type " ++ t.text
  | .recursionLimit f depth =>
    "Evaluation of '" ++ f ++ "' exceeded the maximum call depth of " ++ toString depth
  | .parse e => e.message

end TypedFlow
