import TypedFlow.Pipeline.Admission

/-!
# Edits

An editing session is a graph with its cache. Every edit either succeeds or leaves the graph as it
was. The types that an edit may change are forgotten: those of the node at which it begins and of
everything downstream. An edit after which a committed edge may no longer fit ends with a
revalidation, if the configuration says so.
-/
namespace TypedFlow

structure Session where
  graph : Graph
  cache : TypeCache

/-- An edge that no longer passed its checks. -/
structure DroppedEdge where
  edge : CommittedEdge
  reason : GraphError

/-- What left the graph with an edit: edges removed with a node, and edges dropped for a reason. -/
structure Revalidation where
  removed : List CommittedEdge
  dropped : List DroppedEdge

def Revalidation.isEmpty (r : Revalidation) : Bool := r.removed.isEmpty && r.dropped.isEmpty

structure RejectedEdge where
  edge : Edge
  reason : GraphError

/-- What became of the edges of a definition. -/
structure LoadReport where
  committed : List Nat
  rejected : List RejectedEdge

abbrev Edit := ExceptT GraphError (StateM Session)

namespace Session

def new (g : Graph) : Session := ⟨g, []⟩

/-- Runs a query on the graph of the session. -/
def runQuery {α : Type} (s : Session) (q : Graph → Query α) : Except GraphError α × Session :=
  let (result, cache) := (q s.graph).run.run s.cache
  (result, { s with cache })

/-- Forgets the types of a node and of everything downstream. -/
def forget (s : Session) (id : NodeId) : Session :=
  let stale := s.graph.downstream id
  { s with cache := s.cache.filter fun entry => !stale.contains entry.1 }

/-- Puts a checked edge into the graph. -/
def commit (s : Session) (e : CommittedEdge) : Session :=
  let s := s.forget e.target
  { s with graph := s.graph.withEdge e }

/-- Checks an edge that was committed before, and puts it back or drops it. -/
def readmit (state : Session × List DroppedEdge) (e : CommittedEdge) : Session × List DroppedEdge :=
  let (s, dropped) := state
  match s.runQuery (·.checkEdge e.toEdge) with
  | (.ok (), s) => (s.commit e, dropped)
  | (.error reason, s) => (s, dropped ++ [⟨e, reason⟩])

/-- The committed edges with those of earlier sources first, each source's in order of ids. -/
def replayOrder (g : Graph) : List CommittedEdge :=
  let order := g.executionOrder
  g.edges.mergeSort fun a b => order.idxOf a.source ≤ order.idxOf b.source

/-- Takes all edges out and checks them one after the other, those of earlier sources first. -/
def revalidate (s : Session) : Session × List DroppedEdge :=
  (replayOrder s.graph).foldl readmit (⟨{ s.graph with edges := [] }, []⟩, [])

end Session

namespace Edit

def query {α : Type} (q : Graph → Query α) : Edit α := ExceptT.mk fun s => s.runQuery q

def revalidate : Edit Revalidation := do
  let (s, dropped) := (← get).revalidate
  set s
  return ⟨[], dropped⟩

/-- Ends an edit that may have loosened an edge. -/
def afterChange : Edit Revalidation := do
  if (← get).graph.config.revalidateOnChange then revalidate else return ⟨[], []⟩

def addNode (id : NodeId) (kind : String) (data : NodeData) : Edit Unit := do
  let s ← get
  if (s.graph.node? id).isSome then throw (.duplicateNode id)
  match s.graph.kinds.get? kind with
  | none => throw (.unknownNodeKind id kind)
  | some k =>
    set { s with graph := s.graph.appendNode (k.instantiate id data) }

def removeNode (id : NodeId) : Edit Revalidation := do
  if ((← get).graph.node? id).isNone then throw (.nodeNotFound id)
  let s := (← get).forget id
  set { s with graph := s.graph.eraseNode id }
  let report ← afterChange
  return { report with removed := s.graph.edges.filter (·.touches id) }

def addEdge (e : Edge) : Edit Nat := do
  query (·.checkEdge e)
  let s ← get
  let id := s.graph.nextEdge
  set (Session.commit { s with graph := { s.graph with nextEdge := id + 1 } } { e with id })
  return id

/-- Adds an edge, with a refusal as one of the outcomes. -/
def tryAddEdge (e : Edge) : Edit (Except GraphError Nat) :=
  tryCatch (Except.ok <$> addEdge e) fun reason => return .error reason

def applyEdge (e : Edge) : Edit EdgeState := do
  match ← tryAddEdge e with
  | .ok id => return .committed id
  | .error reason => return .rejected reason

def removeEdge (id : Nat) : Edit Revalidation := do
  match (← get).graph.edge? id with
  | none => throw (.edgeNotFound id)
  | some e =>
    let s := (← get).forget e.target
    set { s with graph := s.graph.eraseEdge id }
    afterChange

def updateNodeData (id : NodeId) (data : NodeData) : Edit Revalidation := do
  if ((← get).graph.node? id).isNone then throw (.nodeNotFound id)
  let s := (← get).forget id
  set { s with graph := s.graph.setData id data }
  afterChange

/-- Why the nodes of a definition cannot be added, the first reason in order. -/
def checkNodes (g : Graph) : List NodeId → List NodeDefinition → Except GraphError Unit
  | _, [] => .ok ()
  | seen, node :: nodes => do
    if (g.node? node.id).isSome || seen.contains node.id then throw (.duplicateNode node.id)
    if !g.kinds.has node.kind then throw (.unknownNodeKind node.id node.kind)
    checkNodes g (node.id :: seen) nodes

/-- Adds the edges that pass their checks, in order. -/
def addEdges : List Edge → Edit LoadReport
  | [] => return ⟨[], []⟩
  | e :: edges => do
    let outcome ← tryAddEdge e
    let report ← addEdges edges
    match outcome with
    | .ok id => return { report with committed := id :: report.committed }
    | .error reason => return { report with rejected := ⟨e, reason⟩ :: report.rejected }

/-- Adds all nodes of a definition or none, and then what can be added of its edges. -/
def load (d : PipelineDefinition) : Edit LoadReport := do
  liftM (checkNodes (← get).graph [] d.nodes)
  d.nodes.forM fun node => addNode node.id node.kind node.data
  addEdges d.edges

/-- Loads what another form was converted to, with a failed conversion as one of the outcomes. -/
def loadFrom {ε : Type} : Except ε PipelineDefinition → Edit (Except ε LoadReport)
  | .ok d => Except.ok <$> load d
  | .error e => return .error e

end Edit
end TypedFlow
