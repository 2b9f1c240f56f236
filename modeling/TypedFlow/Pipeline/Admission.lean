import TypedFlow.Pipeline.Query

/-!
# Admission of edges

An edge is checked against the committed graph in a fixed order, and the first failure counts: its
source, its target, a loop, a cycle, the room at the input, its own types, and the types of the
committed edges downstream, which the new edge may narrow.
-/
namespace TypedFlow

inductive EdgeState
  | valid
  | committed (id : Nat)
  | rejected (reason : GraphError)

namespace Graph

def hasOutput (g : Graph) (id : NodeId) (socket : Nat) : Bool :=
  (g.node? id).any fun node => socket < node.outputs.length

def input? (g : Graph) (id : NodeId) (socket : Nat) : Option InputSocket :=
  (g.node? id).bind (·.inputs[socket]?)

def connections (g : Graph) (id : NodeId) (socket : Nat) : List CommittedEdge :=
  (g.incoming id).filter (·.targetSocket == socket)

/-- The checks that do not concern types. -/
def checkShape (g : Graph) (e : Edge) : Except GraphError Unit := do
  if !g.hasOutput e.source e.sourceSocket then
    throw (.danglingReference e.source .output e.sourceSocket)
  match g.input? e.target e.targetSocket with
  | none => throw (.danglingReference e.target .input e.targetSocket)
  | some socket =>
    if e.source = e.target then throw (.selfLoop e.source)
    if (g.downstream e.target).contains e.source then throw (.cycle e.source e.target)
    if g.arityOf socket ≤ (g.connections e.target e.targetSocket).length then
      throw (.arityExceeded e.target e.targetSocket (g.arityOf socket))

def checkDisjoint (e : Edge) (produced accepted : Ty) : Except GraphError Unit :=
  if produced.isDisjoint accepted then .error (.disjointType e produced accepted) else .ok ()

/-- The outputs of the nodes that have been typed as if the new edge were there. -/
abbrev Trial := List (NodeId × List Ty)

/-- The type that a committed edge carries if the source has been tried. -/
def trialType? (trial : Trial) (e : CommittedEdge) : Option Ty :=
  (Entries.get? trial e.source).map fun outputs => outputs[e.sourceSocket]?.getD .any

/-- The type that a committed edge carries with the new edge in place. -/
def trialType (g : Graph) (trial : Trial) (e : CommittedEdge) : Query Ty :=
  match trialType? trial e with
  | some t => return t
  | none => g.outputType e.source e.sourceSocket

/-- Checks a committed edge whose source has been tried against the types of its target. -/
def checkTrial (trial : Trial) (types : NodeTypes) (e : CommittedEdge) : Except GraphError Unit :=
  match trialType? trial e, types.declaredInputs[e.targetSocket]? with
  | some produced, some accepted => checkDisjoint e.toEdge produced accepted
  | _, _ => .ok ()

/-- Tries one more node: types it with the new edge in place and checks the edges that end there. -/
def tryNode (g : Graph) (e : Edge) (produced : Ty) (trial : Trial) (id : NodeId) : Query Trial :=
  match g.node? id with
  | none => return trial
  | some node => do
    let flows ← (g.incoming id).mapM fun c => return (c.targetSocket, ← g.trialType trial c)
    let added := if id = e.target then [(e.targetSocket, produced)] else []
    let types := NodeTypes.compute g node (flows ++ added)
    (g.incoming id).forM fun c => liftM (checkTrial trial types c)
    return (id, types.outputs) :: trial

/-- Tries the target of the new edge and everything downstream of it. -/
def checkDownstream (g : Graph) (e : Edge) (produced : Ty) : Query Unit := do
  let affected := g.downstream e.target
  let order := g.executionOrder.filter affected.contains
  let _ ← order.foldlM (g.tryNode e produced) []

/-- All checks of an edge that is to be committed. -/
def checkEdge (g : Graph) (e : Edge) : Query Unit := do
  liftM (g.checkShape e)
  let produced ← g.outputType e.source e.sourceSocket
  let accepted ← g.declaredInputType e.target e.targetSocket
  liftM (checkDisjoint e produced accepted)
  g.checkDownstream e produced

/-- Whether an edge could be committed. -/
def proposeEdge (g : Graph) (e : Edge) : Query EdgeState :=
  tryCatch (do
    g.checkEdge e
    return .valid) fun reason => return .rejected reason

end Graph
end TypedFlow
