import TypedFlow.Pipeline.Definition

/-!
# Canvases

The form in which an editor saves a pipeline. An edge names the handles it is attached to, such as
`output-0`; the socket is the number after the last dash, and a missing handle is the first socket.
-/
namespace TypedFlow

structure CanvasEdge where
  source : NodeId
  sourceHandle : Option String
  target : NodeId
  targetHandle : Option String

structure Canvas where
  nodes : List NodeDefinition
  edges : List CanvasEdge

/-- A handle that names no socket. -/
structure InvalidHandle where
  handle : String

def InvalidHandle.message (e : InvalidHandle) : String :=
  "Invalid custom data: Invalid socket handle '" ++ e.handle ++ "'"

namespace Canvas

/-- The kind of a node may also be given as its type. -/
def nodeOfJson? (j : Json) : Option NodeDefinition := do
  match ← j.record? [["id"], ["kind", "type"], ["data"]] with
  | [id, kind, data] => return {
      id := ← Json.required? Json.string? id
      kind := ← Json.required? Json.string? kind
      data := ← Json.defaulted? [] PipelineDefinition.dataOfJson? data }
  | _ => none

def edgeOfJson? (j : Json) : Option CanvasEdge := do
  match ← j.record? [["source"], ["source_handle", "sourceHandle"], ["target"],
      ["target_handle", "targetHandle"]] with
  | [source, sourceHandle, target, targetHandle] => return {
      source := ← Json.required? Json.string? source
      sourceHandle := ← Json.optional? Json.string? sourceHandle
      target := ← Json.required? Json.string? target
      targetHandle := ← Json.optional? Json.string? targetHandle }
  | _ => none

def ofJson? (j : Json) : Option Canvas := do
  match ← j.record? [["nodes"], ["edges"]] with
  | [nodes, edges] => return {
      nodes := ← Json.required? (Json.list? nodeOfJson?) nodes
      edges := ← Json.defaulted? [] (Json.list? edgeOfJson?) edges }
  | _ => none

/-- The characters after the last dash. -/
def afterLastDash (cs : List Char) : List Char := (cs.reverse.takeWhile (· != '-')).reverse

/-- A socket number: digits, after a plus if there is one, that fit 64 bits. -/
def socketNumber? (cs : List Char) : Option Nat :=
  let digits := match cs with
    | '+' :: rest => rest
    | cs => cs
  if !digits.isEmpty && digits.all Char.isDigit && Json.digitsValue digits < Json.wordLimit then
    some (Json.digitsValue digits)
  else none

def socketOf : Option String → Except InvalidHandle Nat
  | none => .ok 0
  | some handle =>
    match socketNumber? (afterLastDash handle.toList) with
    | some n => .ok n
    | none => .error ⟨handle⟩

def edge (e : CanvasEdge) : Except InvalidHandle Edge := do
  let sourceSocket ← socketOf e.sourceHandle
  let targetSocket ← socketOf e.targetHandle
  return ⟨e.source, sourceSocket, e.target, targetSocket⟩

/-- The pipeline on a canvas. The first invalid handle is the error. -/
def toPipeline (c : Canvas) : Except InvalidHandle PipelineDefinition := do
  return ⟨c.nodes, ← c.edges.mapM edge⟩

end Canvas
end TypedFlow
