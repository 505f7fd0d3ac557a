import DrawGraph.Attempt
import DrawGraph.Graph.Basic
import DrawGraph.UiNode.Basic

/-!
# Pins and their boxes

A scene is a graph with the boxes of its pins and the services that UI nodes ask. A pin that
holds a number or an integer also has it as the number of its graph node.
-/

namespace DrawGraph

structure Scene where
  graph : Graph := .empty
  values : ValueStore := .empty
  services : Services := {}

namespace Scene

/-- A change of the graph that may be refused and then leaves the graph as it was. -/
def onGraph {α : Type} (f : Graph → Except GraphError (α × Graph)) : Attempt GraphError Scene α :=
  Attempt.of fun s =>
    match f s.graph with
    | .ok (a, g) => (.ok a, { s with graph := g })
    | .error e => (.error e, s)

def addIdentity (type : NodeType) : Attempt GraphError Scene Id := onGraph (·.addNode { type })

def pinNode (direction : Direction) (v : Value) : Node :=
  { type := v.kind.nodeType, direction := direction, value := v.scalar?.getD 0 }

/-- A new input pin of an identity node, with its box. -/
def addInput (identity : Id) (v : Value) : Attempt GraphError Scene Id := do
  let pin ← onGraph (·.addNode (pinNode .input v))
  let _ ← onGraph (·.addEdge identity pin .internal)
  modify fun s => { s with values := s.values.put pin v }
  return pin

/-- A new output pin of an identity node, with its box. -/
def addOutput (identity : Id) (v : Value) : Attempt GraphError Scene Id := do
  let pin ← onGraph (·.addNode (pinNode .output v))
  let _ ← onGraph (·.addEdge pin identity .internal)
  modify fun s => { s with values := s.values.put pin v }
  return pin

def store (s : Scene) (pin : Id) (v : Value) : Scene :=
  { s with values := s.values.put pin v }

/-- Store a value in a box and, if it is a number, in the pin's node. -/
def write (s : Scene) (pin : Id) (v : Value) : Scene :=
  let s :=
    match v.scalar? with
    | some x =>
      { s with
        graph :=
          { s.graph with nodes := s.graph.nodes.modify pin fun n => { n with value := x } } }
    | none => s
  s.store pin v

def source? (s : Scene) (pin : Id) : Option Id :=
  if s.graph.outDegree pin = 0 then none else (s.graph.neighbors pin).head?

/-- Copy the value of the linked pin into an input, if it can become the input's kind. -/
def pull (s : Scene) (pin : Id) : Scene :=
  match (s.source? pin).bind s.values.get? with
  | none => s
  | some v =>
    match v.coerce (((s.values.get? pin).map Value.kind).getD v.kind) with
    | some w => s.write pin w
    | none => s

/-- Fill a box after loading: with the number that the document holds, if `fallback` is one, and
else with `fallback`. -/
def reload (s : Scene) (pin : Id) (fallback : Value) : Scene :=
  let x := ((s.graph.node? pin).map (·.value)).getD 0
  match fallback with
  | .float _ => s.store pin (.float x)
  | .int _ => s.store pin (.int (Binary32.toInt32 x))
  | v => s.store pin v

/-- Drop nodes with their boxes, up to the first that does not exist. -/
def eraseOwned : List Id → Attempt GraphError Scene Unit
  | [] => return ()
  | id :: ids => do
    modify fun s => { s with values := s.values.erase id }
    let _ ← onGraph (·.eraseNode id)
    eraseOwned ids

/-- The index in a box, or none if there is no box or it holds another kind. -/
def indexIn (s : Scene) (pin : Id) : Int32 :=
  match s.values.get? pin with
  | some (.int n) => n
  | _ => noIndex

/-- Find the index of an asset. Without a path, or without success, it is that of the fallback
shader or none. -/
def resolveAsset (s : Scene) (kind : AssetKind) (path : Option String) : Int32 × Scene :=
  match kind, path with
  | .shader, none => (s.services.shaders.fallback, s)
  | .shader, some p =>
    match s.services.shaders.load p with
    | .ok i => (i, s)
    | .error _ => (s.services.shaders.fallback, s)
  | _, none => (noIndex, s)
  | .model, some p =>
    match s.services.assets.loadModel p with
    | .ok (i, a) => (i, { s with services := { s.services with assets := a } })
    | .error _ => (noIndex, s)
  | .texture, some p =>
    match s.services.assets.loadTexture p with
    | .ok (i, a) => (i, { s with services := { s.services with assets := a } })
    | .error _ => (noIndex, s)

def resolvePrimitive (s : Scene) (shape : PrimitiveShape) : Int32 × Scene :=
  match s.services.assets.loadPrimitive shape with
  | .ok (i, a) => (i, { s with services := { s.services with assets := a } })
  | .error _ => (noIndex, s)

end Scene

end DrawGraph
