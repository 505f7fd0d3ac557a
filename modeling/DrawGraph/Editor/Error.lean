import DrawGraph.Document.Basic
import DrawGraph.Evaluation.Error

/-!
# Refusals of the editor
-/

namespace DrawGraph

inductive LinkError
  | notAPin (id : Id)
  | unowned (pin : Id)
  | sameDirection (a b : Id)
  | sameNode (input output : Id)
  | incompatible (output input : ValueKind)
  | alreadyLinked (input : Id)
  | wouldCycle (input output : Id)
  | notALink (edge : Id)
deriving DecidableEq, Repr

def LinkError.message : LinkError → String
  | notAPin id => s!"Node {id} is not a pin"
  | unowned pin => s!"Pin {pin} has no owning node"
  | sameDirection a b => s!"Pins {a} and {b} have the same direction"
  | sameNode input output => s!"Pins {input} and {output} belong to the same node"
  | incompatible output input => "Cannot feed " ++ output.name ++ " into " ++ input.name
  | alreadyLinked input => s!"Input pin {input} is already linked"
  | wouldCycle input output => s!"Linking {input} to {output} would create a cycle"
  | notALink edge => s!"Edge {edge} is not a link"

inductive EditorError
  | unknownNode (id : Id)
  | wrongKind (id : Id) (expected : String) (found : UiNodeKind)
  | link (e : LinkError)
  | graph (e : GraphError)
  | store (e : StoreError)
  | eval (e : EvalError)
  | persist (e : PersistError)
  | asset (e : AssetError)
deriving DecidableEq

def EditorError.message : EditorError → String
  | unknownNode id => s!"Unknown node: {id}"
  | wrongKind id expected found =>
    s!"Node {id} is a " ++ found.title ++ ", not a " ++ expected
  | link e => e.message
  | graph e => e.message
  | store e => e.message
  | eval e => e.message
  | persist e => e.message
  | asset e => e.message

end DrawGraph
