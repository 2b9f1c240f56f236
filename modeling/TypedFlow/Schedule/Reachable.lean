import TypedFlow.Schedule.Adjacency

/-!
# Reachability

A search from one node along successors or along predecessors. Nodes wait on a stack and are marked
when they are put there, so each is yielded once, and the number of nodes bounds the search.
-/
namespace TypedFlow.Adjacency
variable {α : Type}

/-- The nodes yielded from a stack on, none of which and nothing in `seen` is put there again. -/
def search (next : Nat → List Nat) : Nat → List Nat → List Nat → List Nat
  | 0, _, _ => []
  | _, [], _ => []
  | rounds + 1, node :: stack, seen =>
    let fresh := (next node).filter fun i => !seen.contains i
    node :: search next rounds (fresh ++ stack) (fresh ++ seen)

/-- Every node that can be reached from `start` along successors, `start` first. -/
def forward (g : Adjacency α) (start : Nat) : List Nat :=
  search g.successors g.size [start] [start]

/-- Every node from which `start` can be reached, `start` first. -/
def backward (g : Adjacency α) (start : Nat) : List Nat :=
  search g.predecessors g.size [start] [start]

end TypedFlow.Adjacency
