import TypedFlow.NumericSet.Text
import TypedFlow.Text.Quoted
import TypedFlow.Ty.Basic

/-!
# Type texts

A type is written the way an expression of that type would be: members between bars, fields in
braces, each variant with the name of its enum. A struct without fields is its bare name.
-/
namespace TypedFlow.Ty

/-- Named parts in braces after a name. -/
def braced (name : String) (parts : List String) : String :=
  name ++ " \x7b " ++ ", ".intercalate parts ++ " \x7d"

mutual

def text : Ty → String
  | .any => "any"
  | .never => "never"
  | .number => "number"
  | .string => "string"
  | .numeric set => set.text
  | .stringLiteral s => Text.quote s
  | .struct name [] => name
  | .struct name (field :: fields) => braced name (fieldTexts (field :: fields))
  | .enum name variants => unionMark.intercalate (variantTexts name variants)
  | .oneOf members => unionMark.intercalate (texts members)

def texts : List Ty → List String
  | [] => []
  | t :: types => text t :: texts types

def fieldTexts : List (String × Ty) → List String
  | [] => []
  | (name, t) :: fields => (name ++ ": " ++ text t) :: fieldTexts fields

def variantTexts (owner : String) : List (String × Option Ty) → List String
  | [] => []
  | (name, none) :: variants => (owner ++ "::" ++ name) :: variantTexts owner variants
  | (name, some t) :: variants =>
    (owner ++ "::" ++ name ++ "(" ++ text t ++ ")") :: variantTexts owner variants

end

end TypedFlow.Ty
