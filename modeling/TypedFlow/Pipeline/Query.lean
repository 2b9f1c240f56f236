import TypedFlow.Pipeline.Typing

/-!
# Queries

Socket types are computed on demand and kept in a cache. To type a node, all its ancestors are
typed first, so that what an edge carries is in the cache when it is needed. A query reads a graph
and may only add to the cache, also when it fails.
-/
namespace TypedFlow

abbrev TypeCache := Entries NodeTypes

abbrev Query := ExceptT GraphError (StateM TypeCache)

namespace Graph

/-- The type that an edge carries according to a cache. -/
def carried (cache : TypeCache) (e : CommittedEdge) : Ty :=
  ((cache.get? e.source).bind (·.outputs[e.sourceSocket]?)).getD .any

/-- Types a node from what the cache knows of its sources, unless it is typed already. -/
def remember (g : Graph) (cache : TypeCache) (id : NodeId) : TypeCache :=
  match cache.get? id, g.node? id with
  | none, some node =>
    let flows := (g.incoming id).map fun e => (e.targetSocket, carried cache e)
    cache.insert id (.compute g node flows)
  | _, _ => cache

/-- The cache with a node in it, if the graph has the node. -/
def withNode (g : Graph) (cache : TypeCache) (id : NodeId) : TypeCache :=
  if cache.has id then cache else ((g.ancestry? id).getD []).foldl g.remember cache

def nodeTypes (g : Graph) (id : NodeId) : Query NodeTypes := do
  modify fun cache => g.withNode cache id
  match (← get).get? id with
  | some types => return types
  | none => throw (.nodeNotFound id)

def outputType (g : Graph) (id : NodeId) (socket : Nat) : Query Ty := do
  match (← g.nodeTypes id).outputs[socket]? with
  | some t => return t
  | none => throw (.danglingReference id .output socket)

/-- The type of an input, narrowed by everything connected to it. -/
def inputType (g : Graph) (id : NodeId) (socket : Nat) : Query Ty := do
  match (← g.nodeTypes id).inputs[socket]? with
  | some t => return t
  | none => throw (.danglingReference id .input socket)

/-- The type of an input as its socket declares it. -/
def declaredInputType (g : Graph) (id : NodeId) (socket : Nat) : Query Ty := do
  match (← g.nodeTypes id).declaredInputs[socket]? with
  | some t => return t
  | none => throw (.danglingReference id .input socket)

/-- What went wrong with the socket expressions of all nodes. -/
def diagnostics (g : Graph) : Query (List Diagnostic) := do
  return (← g.nodes.mapM fun node => return (← g.nodeTypes node.id).diagnostics).flatten

end Graph
end TypedFlow
