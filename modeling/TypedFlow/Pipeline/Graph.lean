import TypedFlow.Pipeline.Config
import TypedFlow.Pipeline.Definition
import TypedFlow.Pipeline.Kind
import TypedFlow.Schedule.Reachable

/-!
# Graphs

A graph has registered kinds, nodes in the order of their insertion, and committed edges in the
order of their ids. Ids of edges are given out once and never again.
-/
namespace TypedFlow

structure Node where
  id : NodeId
  kind : String
  category : NodeCategory
  data : NodeData
  inputs : List InputSocket
  outputs : List OutputSocket

structure CommittedEdge extends Edge where
  id : Nat

def CommittedEdge.touches (e : CommittedEdge) (id : NodeId) : Bool := e.source == id || e.target == id

structure Graph where
  scope : Scope
  /-- Kinds by the names that nodes use for them, aliases included. -/
  kinds : Entries NodeKind
  config : GraphConfig
  nodes : List Node
  edges : List CommittedEdge
  nextEdge : Nat

def NodeKind.instantiate (kind : NodeKind) (id : NodeId) (data : NodeData) : Node :=
  ⟨id, kind.name, kind.category, data, kind.inputs, kind.outputs⟩

namespace Graph

/-- The kinds by name, checked in order of their names; of two with one name the later counts. -/
def registerKinds (scope : Scope) (kinds : List NodeKind) :
    Except DefinitionError (Entries NodeKind) := do
  let registered := Entries.ofList (kinds.map fun kind => (kind.name, kind))
  for (_, kind) in registered do kind.checkReferences scope
  return registered

/-- Lets a name stand for a kind that is registered already. -/
def registerAlias (kinds : Entries NodeKind) :
    String × String → Except DefinitionError (Entries NodeKind)
  | (user, registered) =>
    match kinds.get? registered with
    | some kind => .ok (kinds.insert user kind)
    | none => .error (.invalidKind user ("alias of unregistered kind '" ++ registered ++ "'"))

/-- An empty graph over some kinds and aliases of kinds. -/
def create (scope : Scope) (config : GraphConfig) (kinds : List NodeKind)
    (aliases : List (String × String)) : Except DefinitionError Graph := do
  let kinds ← aliases.foldlM registerAlias (← registerKinds scope kinds)
  return ⟨scope, kinds, config, [], [], 0⟩

def node? (g : Graph) (id : NodeId) : Option Node := g.nodes.find? (·.id == id)

def edge? (g : Graph) (id : Nat) : Option CommittedEdge := g.edges.find? (·.id == id)

/-- The most connections that an input takes. -/
def arityOf (g : Graph) (socket : InputSocket) : Nat := socket.arity.getD g.config.defaultArity

def adjacency (g : Graph) : Adjacency NodeId :=
  .ofEdges (g.nodes.map (·.id)) (g.edges.map fun e => (e.source, e.target))

def incoming (g : Graph) (id : NodeId) : List CommittedEdge := g.edges.filter (·.target == id)

/-- A node and everything downstream of it. -/
def downstream (g : Graph) (id : NodeId) : List NodeId :=
  let adjacency := g.adjacency
  (adjacency.indexOf? id).elim [] fun start => adjacency.idsAt (adjacency.forward start)

/-- A node and all its ancestors, each after those that it depends on. -/
def ancestry? (g : Graph) (id : NodeId) : Option (List NodeId) :=
  let adjacency := g.adjacency
  (adjacency.indexOf? id).map fun start => adjacency.idsAt (adjacency.ancestorsOf start)

/-- Every node after all that it depends on. -/
def executionOrder (g : Graph) : List NodeId :=
  let adjacency := g.adjacency
  adjacency.idsAt adjacency.postOrder

/-- The paths from nodes without incoming to nodes without outgoing edges. -/
def pathDecomposition (g : Graph) : List (List NodeId) :=
  let adjacency := g.adjacency
  adjacency.paths.map adjacency.idsAt

def plan (g : Graph) (mode : ScheduleMode) : ExecutionPlan := .make g.adjacency mode

/-- Puts an edge at its place in the order of ids. -/
def insertEdge (e : CommittedEdge) : List CommittedEdge → List CommittedEdge
  | [] => [e]
  | other :: edges =>
    if e.id < other.id then e :: other :: edges
    else if e.id = other.id then e :: edges
    else other :: insertEdge e edges

def appendNode (g : Graph) (node : Node) : Graph := { g with nodes := g.nodes ++ [node] }

/-- The graph without a node and without the edges at it. -/
def eraseNode (g : Graph) (id : NodeId) : Graph := { g with
  nodes := g.nodes.filter (·.id != id)
  edges := g.edges.filter fun e => !e.touches id }

def eraseEdge (g : Graph) (id : Nat) : Graph := { g with edges := g.edges.filter (·.id != id) }

def setData (g : Graph) (id : NodeId) (data : NodeData) : Graph := { g with
  nodes := g.nodes.map fun node => if node.id == id then { node with data } else node }

/-- The graph with one more edge, at its place in the order of ids. -/
def withEdge (g : Graph) (e : CommittedEdge) : Graph := { g with edges := insertEdge e g.edges }

end Graph
end TypedFlow
