import TypedFlow.Schedule.Adjacency

/-!
# Cycles

A depth-first search along successors that remembers the path to the current node and the nodes it
is done with. A successor on the path closes a cycle.
-/
namespace TypedFlow.Adjacency
variable {α : Type}

/-- The part of a path, latest node first, that leads from `first` to its end, in order. -/
def cycleFrom (first : Nat) : List Nat → List Nat
  | [] => []
  | node :: path => if node = first then [node] else cycleFrom first path ++ [node]

/-- Searches from a node on. The error is a cycle; the result is what the search is done with. -/
def explore (g : Adjacency α) : Nat → List Nat → List Nat → Nat → Except (List Nat) (List Nat)
  | 0, _, done, _ => .ok done
  | depth + 1, path, done, node =>
    if done.contains node then .ok done
    else if path.contains node then .error (cycleFrom node path)
    else do
      let done ← (g.successors node).foldlM (explore g depth (node :: path)) done
      return node :: done

/-- The nodes along some cycle, if there is one. -/
def findCycle? (g : Adjacency α) : Option (List Nat) :=
  match (List.range g.size).foldlM (explore g (g.size + 1) []) [] with
  | .ok _ => none
  | .error cycle => some cycle

end TypedFlow.Adjacency
