import DrawGraph.Editor.Basic
import DrawGraph.Graph.Search

/-!
# Links

A link feeds the value of an output pin into an input pin of another UI node. It is stored as an
external edge from the input to the output, whichever of the two is named first. An input takes
one link, and no link may close a cycle.
-/

namespace DrawGraph

namespace Editor

def pinKind (e : Editor) (pin : Id) : Except EditorError ValueKind :=
  match e.values.fetch pin with
  | .ok v => .ok v.kind
  | .error err => .error (.store err)

/-- The two pins as input and output, if they are pins of opposite directions. -/
def orient (e : Editor) (a b : Id) : Except EditorError (Id × Id) :=
  match e.graph.node? a, e.graph.node? b with
  | none, _ => .error (.graph (.nodeNotFound a))
  | some _, none => .error (.graph (.nodeNotFound b))
  | some m, some n =>
    if !m.direction.isPin then .error (.link (.notAPin a))
    else if !n.direction.isPin then .error (.link (.notAPin b))
    else if m.direction = n.direction then .error (.link (.sameDirection a b))
    else .ok (if m.direction = .input then (a, b) else (b, a))

/-- Why a link may not be made, if it may not. -/
def checkLink (e : Editor) (input output : Id) : Except EditorError Unit := do
  let some inputOwner := e.ownerOf input | throw (.link (.unowned input))
  let some outputOwner := e.ownerOf output | throw (.link (.unowned output))
  if inputOwner = outputOwner then throw (.link (.sameNode input output))
  let inputKind ← e.pinKind input
  let outputKind ← e.pinKind output
  if !outputKind.canFeed inputKind then throw (.link (.incompatible outputKind inputKind))
  if e.graph.outDegree input > 0 then throw (.link (.alreadyLinked input))
  if e.graph.reaches output input then throw (.link (.wouldCycle input output))

/-- The link as an edge, before anyone hears of it. -/
def makeLink (e : Editor) (a b : Id) : Except EditorError (Id × Editor) := do
  let (input, output) ← e.orient a b
  e.checkLink input output
  let (edge, g) ← (e.graph.addEdge input output .external).mapError .graph
  return (edge, e.withGraph g)

def link (e : Editor) (a b : Id) : Outcome Id :=
  match e.makeLink a b with
  | .ok (edge, e) => (.ok edge, e.drain)
  | .error err => (.error err, e)

def unlink (e : Editor) (edge : Id) : Outcome Unit :=
  match e.graph.edge? edge with
  | none => (.error (.graph (.edgeNotFound edge)), e)
  | some found =>
    if !found.isExternal then (.error (.link (.notALink edge)), e)
    else
      match e.graph.eraseEdge edge with
      | .ok (_, g) => (.ok (), (e.withGraph g).drain)
      | .error err => (.error (.graph err), e)

def linkInto (e : Editor) (input : Id) : Option Id :=
  ((e.graph.edgesFrom input).find? (·.isExternal)).map (·.id)

end Editor

end DrawGraph
