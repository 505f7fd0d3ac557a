import DrawGraph.Graph.Basic

/-!
# Paths and cycles

Both searches follow edges from consumer to producer. A path that repeats no node has at most as
many steps as there are nodes, and a search that expands each node once takes no more than one
step per edge; this bounds them.
-/

namespace DrawGraph

namespace Graph

def linkCount (g : Graph) : Nat := g.targets.elems.toList.flatten.length

/-- Whether `goal` is met when the pending nodes, and all that follows from them, are expanded.
`seen` holds the nodes expanded before. -/
def search (g : Graph) (goal : Id) : Nat → List Id → List Id → Bool
  | 0, _, _ => false
  | _, _, [] => false
  | steps + 1, seen, n :: pending =>
    if n = goal then true
    else if n ∈ seen then g.search goal steps seen pending
    else g.search goal steps (n :: seen) ((g.neighbors n).reverse ++ pending)

/-- Whether a path leads from one node to another. Each leads to itself. -/
def reaches (g : Graph) (source target : Id) : Bool :=
  g.search target (g.linkCount + 1) [] [source]

/-- Visit a node in depth, `path` being the nodes on the way to it and `done` those known to lead
into no cycle. There is no result when a cycle is met; a path with more nodes than the graph
would hold one. -/
def explore (g : Graph) : Nat → List Id → List Id → Id → Option (List Id)
  | 0, _, _, _ => none
  | depth + 1, path, done, n =>
    if n ∈ path then none
    else if n ∈ done then some done
    else
      ((g.neighbors n).foldlM (fun done m => g.explore depth (n :: path) done m) done).map (n :: ·)

def hasCycleFrom (g : Graph) (n : Id) : Bool :=
  (g.explore (g.targets.size + 2) [] [] n).isNone

end Graph

end DrawGraph
