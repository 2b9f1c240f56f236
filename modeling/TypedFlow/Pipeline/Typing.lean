import TypedFlow.Pipeline.Error
import TypedFlow.Pipeline.Graph

/-!
# Socket types

The types of all sockets of one node, given what flows into its inputs. An input with connections
has its declared type narrowed to the union of what they carry. A socket expression that cannot be
evaluated makes its socket `any` and leaves a diagnostic.
-/
namespace TypedFlow

structure SocketRef where
  side : Side
  index : Nat
deriving DecidableEq

structure Diagnostic where
  node : NodeId
  socket : SocketRef
  error : EvaluationError

def Diagnostic.message (d : Diagnostic) : String :=
  d.socket.side.name ++ " " ++ toString d.socket.index ++ " of '" ++ d.node ++ "': " ++
    d.error.message

structure NodeTypes where
  declaredInputs : List Ty
  inputs : List Ty
  outputs : List Ty
  diagnostics : List Diagnostic

/-- The name of the struct as which a node sees its data. -/
def dataStruct : String := "NodeData"

mutual

/-- The type of the value under a name. There are no types of lists and of `null`. -/
def valueType (name : String) : Json → Ty
  | .bool value => .boolLiteral value
  | .integer value => .literal (Json.numberOfInteger value)
  | .float value => .literal value
  | .string text => .stringLiteral text
  | .object members => .struct name (fieldTypes members)
  | .null | .array _ | .unreadable => .any

def fieldTypes : List (String × Json) → List (String × Ty)
  | [] => []
  | (name, value) :: members => (name, valueType name value) :: fieldTypes members

end

/-- The data of a node as a struct of literal types. -/
def dataType (data : NodeData) : Ty := .struct dataStruct (fieldTypes data)

namespace NodeTypes

/-- The type of a socket, and what went wrong with it. -/
def socketType (g : Graph) (node : NodeId) (bindings : Bindings) (socket : SocketRef)
    (declared : Option Expr) : Ty × List Diagnostic :=
  match declared with
  | none => (.any, [])
  | some e =>
    match evaluate g.scope g.config.maxCallDepth bindings e with
    | .ok t => (t, [])
    | .error error => (.any, [⟨node, socket, error⟩])

/-- The type of an input with the types that flow into it. -/
def narrow (declared : Ty) (connected : List Ty) : Ty :=
  if connected.isEmpty then declared else (Ty.unionAll connected).intersect declared

/-- The types of a node; `incoming` holds for each input what flows into it. -/
def ofIncoming (g : Graph) (node : Node) (incoming : List (List Ty)) : NodeTypes :=
  let dataOnly : Bindings := [(dataBinding, dataType node.data)]
  let declared := node.inputs.zipIdx.map fun (s, i) =>
    socketType g node.id dataOnly ⟨.input, i⟩ s.declared
  let inputs := List.zipWith narrow (declared.map (·.1)) incoming
  let bindings := inputs.zipIdx.foldl (fun b (t, i) => b.insert (inputBinding i) t) dataOnly
  let outputs := node.outputs.zipIdx.map fun (s, i) =>
    socketType g node.id bindings ⟨.output, i⟩ s.declared
  { declaredInputs := declared.map (·.1)
    inputs
    outputs := outputs.map (·.1)
    diagnostics := declared.flatMap (·.2) ++ outputs.flatMap (·.2) }

/-- What flows into each of some inputs, out of flows that are marked with an input. -/
def distribute (inputs : Nat) (flows : List (Nat × Ty)) : List (List Ty) :=
  (List.range inputs).map fun i => (flows.filter (·.1 == i)).map (·.2)

/-- The types of a node into which types flow, each marked with the input it comes to. -/
def compute (g : Graph) (node : Node) (flows : List (Nat × Ty)) : NodeTypes :=
  ofIncoming g node (distribute node.inputs.length flows)

end NodeTypes
end TypedFlow
