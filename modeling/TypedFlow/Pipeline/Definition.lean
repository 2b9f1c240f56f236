import TypedFlow.Json.Record
import TypedFlow.Schedule.Plan

/-!
# Pipeline definitions

A pipeline as it is written: its nodes with their data, and edges from outputs to inputs.
-/
namespace TypedFlow

/-- The settings of a node: a JSON object with its members in order of their names. -/
abbrev NodeData := List (String × Json)

/-- A connection of an output to an input, whether it is committed or only asked for. -/
structure Edge where
  source : NodeId
  sourceSocket : Nat
  target : NodeId
  targetSocket : Nat
deriving DecidableEq

structure NodeDefinition where
  id : NodeId
  kind : String
  data : NodeData

structure PipelineDefinition where
  nodes : List NodeDefinition
  edges : List Edge

namespace Edge

/-- An edge on its own gives all four fields. -/
def ofJson? (j : Json) : Option Edge := do
  match ← j.record? [["source"], ["source_socket"], ["target"], ["target_socket"]] with
  | [source, sourceSocket, target, targetSocket] => return {
      source := ← Json.required? Json.string? source
      sourceSocket := ← Json.required? Json.count? sourceSocket
      target := ← Json.required? Json.string? target
      targetSocket := ← Json.required? Json.count? targetSocket }
  | _ => none

def toJson (e : Edge) : Json :=
  .object [("source", .string e.source), ("source_socket", .integer e.sourceSocket),
    ("target", .string e.target), ("target_socket", .integer e.targetSocket)]

end Edge

namespace PipelineDefinition

/-- Levels of JSON around the data of a node: the document, the list of nodes and the node. -/
def dataEnclosing : Nat := 3

/-- Levels that a document may have. -/
def maxLevels : Nat := 127

def dataOfJson? (j : Json) : Option NodeData := j.dictionary? (maxLevels - dataEnclosing)

def nodeOfJson? (j : Json) : Option NodeDefinition := do
  match ← j.record? [["id"], ["kind"], ["data"]] with
  | [id, kind, data] => return {
      id := ← Json.required? Json.string? id
      kind := ← Json.required? Json.string? kind
      data := ← Json.defaulted? [] dataOfJson? data }
  | _ => none

/-- In a pipeline a missing socket is the first one. -/
def edgeOfJson? (j : Json) : Option Edge := do
  match ← j.record? [["source"], ["sourceSocket"], ["target"], ["targetSocket"]] with
  | [source, sourceSocket, target, targetSocket] => return {
      source := ← Json.required? Json.string? source
      sourceSocket := ← Json.defaulted? 0 Json.count? sourceSocket
      target := ← Json.required? Json.string? target
      targetSocket := ← Json.defaulted? 0 Json.count? targetSocket }
  | _ => none

def ofJson? (j : Json) : Option PipelineDefinition := do
  match ← j.record? [["nodes"], ["edges"]] with
  | [nodes, edges] => return {
      nodes := ← Json.defaulted? [] (Json.list? nodeOfJson?) nodes
      edges := ← Json.defaulted? [] (Json.list? edgeOfJson?) edges }
  | _ => none

def toJson (d : PipelineDefinition) : Json :=
  .object [
    ("nodes", .array (d.nodes.map fun n =>
      .object [("id", .string n.id), ("kind", .string n.kind), ("data", .object n.data)])),
    ("edges", .array (d.edges.map fun e =>
      .object [("source", .string e.source), ("sourceSocket", .integer e.sourceSocket),
        ("target", .string e.target), ("targetSocket", .integer e.targetSocket)]))]

end PipelineDefinition
end TypedFlow
