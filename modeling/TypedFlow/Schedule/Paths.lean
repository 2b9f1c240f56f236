import TypedFlow.Schedule.Adjacency

/-!
# Paths

The paths from a node that nothing precedes to a node that nothing follows, without repeating a
node. Their number can grow exponentially, so the first few can be had without the others.
-/
namespace TypedFlow.Adjacency
variable {α : Type}

/-- The successors of a node that are not on the path to it. -/
def onward (g : Adjacency α) (path : List Nat) (node : Nat) : List Nat :=
  (g.successors node).filter fun i => !(node :: path).contains i

/-- The paths that continue `path`, latest node first, by `node`. -/
def pathsThrough (g : Adjacency α) : Nat → List Nat → Nat → List (List Nat)
  | 0, _, _ => []
  | depth + 1, path, node =>
    if (g.successors node).isEmpty then [(node :: path).reverse]
    else (g.onward path node).flatMap (pathsThrough g depth (node :: path))

/-- Every path, by its root and then by the order of successors. -/
def paths (g : Adjacency α) : List (List Nat) := g.roots.flatMap (g.pathsThrough g.size [])

/-- Gathers up to `limit` items from some sources, asking each for no more than is still wanted. -/
def gather {β γ : Type} (items : Nat → β → List γ) (limit : Nat) : List β → List γ
  | [] => []
  | source :: sources =>
    if limit = 0 then []
    else
      let found := items limit source
      found ++ gather items (limit - found.length) sources

/-- The first paths through a node, no more than `limit`. -/
def firstPathsThrough (g : Adjacency α) : Nat → List Nat → Nat → Nat → List (List Nat)
  | 0, _, _, _ => []
  | depth + 1, path, limit, node =>
    if (g.successors node).isEmpty then [(node :: path).reverse]
    else gather (firstPathsThrough g depth (node :: path)) limit (g.onward path node)

def firstPaths (g : Adjacency α) (limit : Nat) : List (List Nat) :=
  gather (g.firstPathsThrough g.size []) limit g.roots

end TypedFlow.Adjacency
