import DrawGraph.Graph.Basic
import DrawGraph.Value.Arithmetic

/-!
# Failures of an evaluation
-/

namespace DrawGraph

inductive EvalError
  | missingRoot
  | graph (e : GraphError)
  | cycle (root : Id)
  | visitLimit (limit : Nat)
  | malformed (node : Id) (type : NodeType) (needed available : Nat)
  | value (node : Id) (e : ValueError)
  | typeMismatch (node : Id) (expected found : ValueKind)
  | unowned (node : Id) (type : NodeType)
deriving DecidableEq

def EvalError.message : EvalError → String
  | missingRoot => "No root node to evaluate"
  | graph e => e.message
  | cycle root => s!"Graph contains a cycle reachable from node {root}"
  | visitLimit limit => s!"Evaluation exceeded {limit} node visits"
  | malformed node type needed available =>
    s!"Malformed graph at node {node} (" ++ type.title ++
      s!"): needs {needed} values, stack has {available}"
  | value node e => s!"Node {node}: " ++ e.message
  | typeMismatch node expected found =>
    s!"Node {node} expected " ++ expected.name ++ ", got " ++ found.name
  | unowned node type => s!"Node {node} (" ++ type.title ++ ") has no evaluator"

end DrawGraph
