import TypedFlow.Evaluation.Error

/-!
# Frames

A frame records what is open while an expression is evaluated: how many calls, and which
definitions are being resolved. What an evaluation opens it closes again, whether or not it
succeeds.
-/
namespace TypedFlow

structure Frame where
  depth : Nat
  resolving : List String

namespace Frame

def empty : Frame := ⟨0, []⟩

def enterCall (f : Frame) : Frame := { f with depth := f.depth + 1 }

def leaveCall (f : Frame) : Frame := { f with depth := f.depth - 1 }

def beginResolving (name : String) (f : Frame) : Frame :=
  { f with resolving := name :: f.resolving }

def endResolving (f : Frame) : Frame := { f with resolving := f.resolving.tail }

end Frame

/-- A computation of a type that may fail and that opens and closes things in a frame. -/
abbrev Evaluation := ExceptT EvaluationError (StateM Frame)

namespace Evaluation
variable {α : Type}

def lift (result : Except EvaluationError α) : Evaluation α := ExceptT.mk (pure result)

/-- Runs a computation between an opening and a closing change of the frame. -/
def between (opening closing : Frame → Frame) (x : Evaluation α) : Evaluation α :=
  ExceptT.mk fun frame =>
    let (result, frame) := x.run (opening frame)
    (result, closing frame)

/-- Runs the body of a function, unless as many calls are open as the limit allows. -/
def withinCall (limit : Nat) (function : String) (body : Evaluation α) : Evaluation α := do
  if limit ≤ (← get).depth then throw (.recursionLimit function limit)
  between .enterCall .leaveCall body

/-- Resolves a definition, unless it is being resolved already. -/
def whileResolving (name : String) (body : Evaluation α) : Evaluation α := do
  let resolving := (← get).resolving
  if resolving.contains name then throw (.recursionLimit name resolving.length)
  between (.beginResolving name) .endResolving body

end Evaluation
end TypedFlow
