import TypedFlow.Expr.Basic

/-!
# Declarations

What a definition source declares. A function with an owner is named by its path.
-/
namespace TypedFlow

inductive Declaration
  | struct (name : String) (fields : List (String × Expr))
  | enum (name : String) (variants : List (String × Option Expr))
  | function (name : String) (params : List (String × Expr)) (body : Expr)
  | alias (name : String) (value : Expr)
deriving Inhabited

def Declaration.name : Declaration → String
  | .struct name _ | .enum name _ | .function name _ _ | .alias name _ => name

end TypedFlow
