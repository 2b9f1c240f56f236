import TypedFlow.Pipeline.Definition
import TypedFlow.Ty.Text

/-!
# Graph errors

Why a change of a graph is refused. A refused change leaves the graph as it was.
-/
namespace TypedFlow

/-- The sides on which a node has sockets. -/
inductive Side
  | input
  | output
deriving DecidableEq

def Side.name : Side → String
  | .input => "input"
  | .output => "output"

inductive GraphError
  | duplicateNode (node : NodeId)
  | unknownNodeKind (node : NodeId) (kind : String)
  | nodeNotFound (node : NodeId)
  | edgeNotFound (edge : Nat)
  | danglingReference (node : NodeId) (side : Side) (socket : Nat)
  | selfLoop (node : NodeId)
  | cycle (source target : NodeId)
  | arityExceeded (node : NodeId) (socket arity : Nat)
  | disjointType (edge : Edge) (produced accepted : Ty)

def edgeName (id : Nat) : String := "#" ++ toString id

def GraphError.message : GraphError → String
  | .duplicateNode n => "Node '" ++ n ++ "' already exists"
  | .unknownNodeKind n k => "Node '" ++ n ++ "' has an unregistered kind: '" ++ k ++ "'"
  | .nodeNotFound n => "Node '" ++ n ++ "' not found"
  | .edgeNotFound e => "Edge '" ++ edgeName e ++ "' not found"
  | .danglingReference n side socket =>
    "Edge references " ++ side.name ++ " socket " ++ toString socket ++ " of node '" ++ n ++
      "', which does not exist"
  | .selfLoop n => "Node '" ++ n ++ "' cannot be connected to itself"
  | .cycle s t => "Connecting '" ++ s ++ "' to '" ++ t ++ "' would create a cycle"
  | .arityExceeded n socket arity =>
    "Input " ++ toString socket ++ " of node '" ++ n ++ "' already holds its maximum of " ++
      toString arity ++ " connection(s)"
  | .disjointType e produced accepted =>
    "Output " ++ toString e.sourceSocket ++ " of '" ++ e.source ++ "' (" ++ produced.text ++
      ") is incompatible with input " ++ toString e.targetSocket ++ " of '" ++ e.target ++ "' (" ++
      accepted.text ++ ")"

end TypedFlow
