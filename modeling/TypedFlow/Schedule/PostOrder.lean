import TypedFlow.Schedule.Adjacency

/-!
# Post-order

A depth-first walk along predecessors that yields a node after everything it came to from there. In
a graph without cycles every node therefore follows all that precede it.
-/
namespace TypedFlow.Adjacency
variable {α : Type}

/-- The nodes entered so far, and those yielded, the latest first. -/
structure Walk where
  entered : List Nat
  yielded : List Nat

/-- Enters a node unless that happened before. A walk goes no deeper than there are nodes. -/
def visit (g : Adjacency α) : Nat → Walk → Nat → Walk
  | 0, walk, _ => walk
  | depth + 1, walk, node =>
    if walk.entered.contains node then walk
    else
      let walk := (g.predecessors node).foldl (visit g depth)
        { walk with entered := node :: walk.entered }
      { walk with yielded := node :: walk.yielded }

def walkFrom (g : Adjacency α) (starts : List Nat) : List Nat :=
  (starts.foldl (visit g g.size) ⟨[], []⟩).yielded.reverse

/-- All nodes, started from in order. -/
def postOrder (g : Adjacency α) : List Nat := g.walkFrom (List.range g.size)

/-- A node and all its ancestors, the node last. -/
def ancestorsOf (g : Adjacency α) (start : Nat) : List Nat := g.walkFrom [start]

end TypedFlow.Adjacency
