import TypedFlow.Json.Record
import TypedFlow.Schedule.Paths
import TypedFlow.Schedule.PostOrder

/-!
# Execution plans

A plan is either one order of all nodes, or one order per path, in which nodes that paths share come
up once for each. Whoever accepts a plan says how many executions it schedules.
-/
namespace TypedFlow

abbrev NodeId := String

inductive ScheduleMode
  | global
  | paths
deriving DecidableEq

namespace ScheduleMode

def name : ScheduleMode → String
  | .global => "global"
  | .paths => "paths"

def ofName? (name : String) : Option ScheduleMode :=
  [ScheduleMode.global, .paths].find? (·.name == name)

def ofJson? (j : Json) : Option ScheduleMode := j.word?.bind ofName?

end ScheduleMode

inductive ExecutionPlan
  | global (order : List NodeId)
  | paths (orders : List (List NodeId))

namespace ExecutionPlan

def make (g : Adjacency NodeId) : ScheduleMode → ExecutionPlan
  | .global => .global (g.idsAt g.postOrder)
  | .paths => .paths (g.paths.map g.idsAt)

def mode : ExecutionPlan → ScheduleMode
  | .global _ => .global
  | .paths _ => .paths

def executions : ExecutionPlan → Nat
  | .global order => order.length
  | .paths orders => orders.flatten.length

def orderJson : ExecutionPlan → Json
  | .global order => .array (order.map .string)
  | .paths orders => .array (orders.map fun order => .array (order.map .string))

def toJson (p : ExecutionPlan) : Json :=
  .object [("mode", .string p.mode.name), ("order", p.orderJson)]

end ExecutionPlan

/-- The receipt of whoever accepts a plan. -/
structure Acknowledgement where
  backend : String
  mode : ScheduleMode
  scheduled : Nat

def ExecutionPlan.acknowledge (p : ExecutionPlan) (backend : String) : Acknowledgement :=
  ⟨backend, p.mode, p.executions⟩

end TypedFlow
