import TypedFlow.CommandLine.Options
import TypedFlow.Json.Read
import TypedFlow.Json.Write
import TypedFlow.Pipeline.Canvas
import TypedFlow.Pipeline.Edit
import TypedFlow.Scope.Prelude

/-!
# The command

The command type-checks a canvas against a file of kinds, writes a report with the types of all
sockets, the rejected edges and the diagnostics, and then the execution plan. Files are given as a
function from paths to their texts or the reason why they cannot be read.
-/
namespace TypedFlow.CommandLine

inductive Input
  | definitions
  | config
  | kinds
  | pipeline
deriving DecidableEq

def Input.name : Input → String
  | .definitions => "definitions"
  | .config => "config"
  | .kinds => "kinds"
  | .pipeline => "pipeline"

inductive CommandError
  | unreadable (input : Input) (path reason : String)
  /-- A document that is no JSON or does not have the form it should have. -/
  | malformed (input : Input)
  | prelude (error : DefinitionError)
  | definitions (error : DefinitionError)
  | kind (error : DefinitionError)
  | kinds (error : DefinitionError)
  | alias (text : String)
  | handle (error : InvalidHandle)
  | load (error : GraphError)

def CommandError.message : CommandError → String
  | .unreadable input path reason =>
    "Failed to read " ++ input.name ++ " file '" ++ path ++ "': " ++ reason
  | .malformed input => "Failed to parse " ++ input.name ++ " JSON: unexpected form"
  | .prelude e => "Prelude failed: " ++ e.message
  | .definitions e => "Invalid definitions: " ++ e.message
  | .kind e => "Invalid node kind: " ++ e.message
  | .kinds e => "Invalid node kinds: " ++ e.message
  | .alias text => "Alias '" ++ text ++ "' must look like canvasType=kind"
  | .handle e => "Failed to load pipeline: " ++ e.message
  | .load e => "Failed to load pipeline: " ++ e.message

/-- What is written when the command fails. -/
def CommandError.notice (e : CommandError) : String := "\nError: " ++ e.message ++ "\n"

/-- The text of a file, or the reason why it cannot be read. -/
abbrev Files := String → Except String String

def readFile (files : Files) (input : Input) (path : String) : Except CommandError String :=
  (files path).mapError (.unreadable input path)

def readDocument {α : Type} (files : Files) (input : Input) (path : String)
    (read : Json → Option α) : Except CommandError α := do
  let text ← readFile files input path
  match (Json.read? text).bind read with
  | some value => return value
  | none => throw (.malformed input)

/-- The definitions of the user on top of the prelude. -/
def userScope (files : Files) (o : Options) : Except CommandError Scope := do
  let root ← TypedFlow.prelude.mapError .prelude
  let empty := ScopeBuilder.new "user" root
  let builder ← match o.definitions with
    | none => pure empty
    | some path => do
      let source ← readFile files .definitions path
      let (builder, added) := empty.addSource source
      added.mapError .definitions
      pure builder
  builder.build.mapError .definitions

def configuration (files : Files) (o : Options) : Except CommandError GraphConfig :=
  match o.config with
  | none => .ok .default
  | some path => readDocument files .config path GraphConfig.ofJson?

def aliasParts (text : String) : Except CommandError (String × String) :=
  match splitEquals text.toList with
  | (user, some registered) => .ok (user, registered)
  | (_, none) => .error (.alias text)

def emptyGraph (files : Files) (o : Options) : Except CommandError Graph := do
  let scope ← userScope files o
  let config ← configuration files o
  let definitions ← readDocument files .kinds o.kinds (Json.list? KindDefinition.ofJson?)
  let kinds ← definitions.mapM fun d => (NodeKind.ofDefinition d).mapError .kind
  let aliases ← o.aliases.mapM aliasParts
  (Graph.create scope config kinds aliases).mapError .kinds

def Rejection.toJson (r : RejectedEdge) : Json :=
  .object [("edge", r.edge.toJson), ("reason", .string r.reason.message)]

def socketJson (s : SocketRef) : Json :=
  .object [("side", .string s.side.name), ("index", .integer s.index)]

def diagnosticJson (d : Diagnostic) : Json :=
  .object [("node", .string d.node), ("socket", socketJson d.socket),
    ("message", .string d.error.message)]

/-- A node with the texts of its socket types. -/
def nodeJson (g : Graph) (node : Node) : Query Json := do
  let types ← g.nodeTypes node.id
  let texts (types : List Ty) : Json := .array (types.map fun t => .string t.text)
  return .object [("id", .string node.id), ("kind", .string node.kind),
    ("inputs", texts types.inputs), ("outputs", texts types.outputs)]

def report (g : Graph) (load : LoadReport) : Query Json := do
  let nodes ← g.nodes.mapM (nodeJson g)
  let diagnostics ← g.diagnostics
  return .object [("nodes", .array nodes),
    ("rejected", .array (load.rejected.map Rejection.toJson)),
    ("diagnostics", .array (diagnostics.map diagnosticJson))]

/-- The documents that the command writes: the report and the plan. -/
def documents (files : Files) (o : Options) : Except CommandError (List Json) := do
  let g ← emptyGraph files o
  let canvas ← readDocument files .pipeline o.pipeline Canvas.ofJson?
  let (loaded, session) := (Edit.loadFrom canvas.toPipeline).run.run (.new g)
  let loaded ← (← loaded.mapError .load).mapError .handle
  let (written, session) := session.runQuery (report · loaded)
  let written ← written.mapError .load
  return [written, (session.graph.plan o.mode).toJson]

def run (files : Files) (o : Options) : Except CommandError String := do
  let write := if o.pretty then Json.pretty else Json.compact
  return String.join ((← documents files o).map fun j => write j ++ "\n")

end TypedFlow.CommandLine
