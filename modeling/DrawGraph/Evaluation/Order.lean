import DrawGraph.Evaluation.Error
import DrawGraph.Graph.Search

/-!
# The order of a walk

A walk starts at the root and follows every outgoing edge, so a node is visited once for each
path that leads to it. It keeps a stack of nodes to visit, and the last target of a node is on
top. The nodes are reduced in the reverse order, in which a node comes after its targets.
-/

namespace DrawGraph

structure EvalSettings where
  maxVisits : Nat := 65536
  timeScale : Float32 := 1
deriving DecidableEq

namespace Graph

/-- Visit the pending nodes and what follows from them, with at most `limit` visits. `visited`
holds the nodes visited before, the last one first. -/
def walk (g : Graph) : Nat → List Id → List Id → Option (List Id)
  | _, visited, [] => some visited
  | 0, _, _ :: _ => none
  | limit + 1, visited, n :: pending =>
    g.walk limit (n :: visited) ((g.neighbors n).reverse ++ pending)

/-- The nodes from the root on, in the order of their reduction. -/
def reductionOrder (g : Graph) (settings : EvalSettings) (root : Id) :
    Except EvalError (List Id) :=
  if !g.hasNode root then .error (.graph (.nodeNotFound root))
  else if g.hasCycleFrom root then .error (.cycle root)
  else
    match g.walk settings.maxVisits [] [root] with
    | some order => .ok order
    | none => .error (.visitLimit settings.maxVisits)

/-- The nodes from the root on, in the order of their visits. -/
def visitOrder (g : Graph) (settings : EvalSettings) (root : Id) : Except EvalError (List Id) :=
  (g.reductionOrder settings root).map List.reverse

end Graph

end DrawGraph
