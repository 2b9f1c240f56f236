import TypedFlow.Evaluation.Basic
import TypedFlow.Json.Record

/-!
# Graph configuration
-/
namespace TypedFlow

structure GraphConfig where
  /-- Connections that an input takes unless it says otherwise. -/
  defaultArity : Nat
  /-- Calls that a socket expression may have open at once. -/
  maxCallDepth : Nat
  /-- Whether every change that can loosen an edge has all edges checked again. -/
  revalidateOnChange : Bool
deriving DecidableEq

namespace GraphConfig

def default : GraphConfig := ⟨1, defaultCallDepth, true⟩

/-- Each setting may be absent. -/
def ofJson? (j : Json) : Option GraphConfig := do
  match ← j.record? [["default_arity"], ["max_call_depth"], ["revalidate_on_change"]] with
  | [arity, depth, revalidate] => return {
      defaultArity := ← Json.defaulted? default.defaultArity Json.count? arity
      maxCallDepth := ← Json.defaulted? default.maxCallDepth Json.count? depth
      revalidateOnChange := ← Json.defaulted? default.revalidateOnChange Json.bool? revalidate }
  | _ => none

def toJson (c : GraphConfig) : Json :=
  .object [("default_arity", .integer c.defaultArity), ("max_call_depth", .integer c.maxCallDepth),
    ("revalidate_on_change", .bool c.revalidateOnChange)]

end GraphConfig
end TypedFlow
