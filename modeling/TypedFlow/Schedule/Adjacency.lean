/-!
# Adjacency

The nodes of a graph by their place in a list, and for every place those that follow it and those
that precede it. Parallel edges count once, at the place of the first, and edges between unknown
nodes not at all. If a node is listed twice, edges go to and from its last place.
-/
namespace TypedFlow

structure Adjacency (α : Type) where
  ids : List α
  successorTable : Array (List Nat)
  predecessorTable : Array (List Nat)

namespace Adjacency
variable {α : Type} [DecidableEq α]

/-- The last place at which a node is listed. -/
def lastIndex? (id : α) : List α → Option Nat
  | [] => none
  | other :: ids =>
    match lastIndex? id ids with
    | some i => some (i + 1)
    | none => if other = id then some 0 else none

def link? (ids : List α) (edge : α × α) : Option (Nat × Nat) := do
  return (← lastIndex? edge.1 ids, ← lastIndex? edge.2 ids)

/-- The pairs of places that some edge joins, in the order of first edges. -/
def links (ids : List α) (edges : List (α × α)) : List (Nat × Nat) :=
  (edges.filterMap (link? ids)).foldl
    (fun found l => if found.contains l then found else found ++ [l]) []

def ofEdges (ids : List α) (edges : List (α × α)) : Adjacency α :=
  let found := links ids edges
  let places := List.range ids.length
  { ids
    successorTable := (places.map fun i => (found.filter (·.1 == i)).map (·.2)).toArray
    predecessorTable := (places.map fun i => (found.filter (·.2 == i)).map (·.1)).toArray }

def size (g : Adjacency α) : Nat := g.ids.length

def indexOf? (g : Adjacency α) (id : α) : Option Nat := lastIndex? id g.ids

def successors (g : Adjacency α) (i : Nat) : List Nat := g.successorTable.getD i []

def predecessors (g : Adjacency α) (i : Nat) : List Nat := g.predecessorTable.getD i []

/-- The nodes that nothing precedes, in order. -/
def roots (g : Adjacency α) : List Nat :=
  (List.range g.size).filter fun i => (g.predecessors i).isEmpty

def idsAt (g : Adjacency α) (places : List Nat) : List α := places.filterMap (g.ids[·]?)

end Adjacency
end TypedFlow
