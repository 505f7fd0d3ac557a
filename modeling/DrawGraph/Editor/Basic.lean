import DrawGraph.Bus
import DrawGraph.Editor.Error
import DrawGraph.Evaluation.Order
import DrawGraph.UiNode.Create
import DrawGraph.UiNode.React

/-!
# The editor

The editor holds a scene and its UI nodes in the order in which they were added. Changes of the
graph leave events in its outbox. After each operation these are delivered, oldest first, to the
observers among the UI nodes; what those change leaves further events behind the others.
-/

namespace DrawGraph

structure Editor where
  scene : Scene := {}
  bus : Bus := []
  nodes : List UiNode := []
  root : Option Id := none
  settings : EvalSettings := {}
  clock : Clock := {}

/-- What an operation answers, and the editor it leaves. -/
abbrev Outcome (α : Type) := Except EditorError α × Editor

namespace Editor

def new (services : Services := {}) (settings : EvalSettings := {}) : Editor :=
  { scene := { services }, settings }

def graph (e : Editor) : Graph := e.scene.graph

def values (e : Editor) : ValueStore := e.scene.values

def withGraph (e : Editor) (g : Graph) : Editor :=
  { e with scene := { e.scene with graph := g } }

def withServices (e : Editor) (services : Services) : Editor :=
  { e with scene := { e.scene with services } }

def node? (e : Editor) (id : Id) : Option UiNode := e.nodes.find? (·.id == id)

def replace (e : Editor) (n : UiNode) : Editor :=
  { e with nodes := e.nodes.map fun m => if m.id = n.id then n else m }

/-- The UI node that a pin or an identity belongs to. -/
def ownerOf (e : Editor) (id : Id) : Option Id :=
  if e.nodes.any (·.id == id) then some id
  else (e.nodes.find? (·.pins.contains id)).map (·.id)

def act (e : Editor) (n : UiNode) (f : UiNode → Scene → UiNode × Scene) : Editor :=
  let (n, s) := f n e.scene
  ({ e with scene := s }).replace n

def notify (event : Event) (e : Editor) (observer : Id) : Editor :=
  match e.node? observer with
  | some n => e.act n (·.onEvent event)
  | none => e

def deliver (e : Editor) (event : Event) : Editor := e.bus.foldl (notify event) e

/-- Deliver events until none is left. When `limit` have been delivered, the rest are dropped. -/
def drainUpTo : Nat → Editor → Editor
  | 0, e => e.withGraph { e.graph with outbox := [] }
  | limit + 1, e =>
    match e.graph.takeEvent with
    | none => e
    | some (event, g) => drainUpTo limit ((e.withGraph g).deliver event)

def drainLimit : Nat := 4096

def drain (e : Editor) : Editor := drainUpTo drainLimit e

/-- Take in a UI node that was made in a scene. The first render target becomes the root if there
is none. -/
def enroll (e : Editor) (n : UiNode) (s : Scene) : Editor :=
  { e with
    scene := s
    bus := if n.observes then (e.bus.attach n.id).1 else e.bus
    root := if n.isRenderTarget then e.root.or (some n.id) else e.root
    nodes := e.nodes ++ [n] }

/-- Let go of a UI node that has dropped its pins and its identity from a scene. -/
def dismiss (e : Editor) (n : UiNode) (s : Scene) : Editor :=
  { e with
    scene := s
    bus := if n.observes then (e.bus.detach n.id).1 else e.bus
    root := if e.root = some n.id then none else e.root
    nodes := e.nodes.filter (·.id != n.id) }

def addNode (e : Editor) (kind : UiNodeKind) : Outcome Id :=
  match (UiNode.create kind).on e.scene with
  | (.error err, s) => (.error (.graph err), { e with scene := s })
  | (.ok n, s) => (.ok n.id, (e.enroll n s).drain)

def removeNode (e : Editor) (id : Id) : Outcome Unit :=
  match e.node? id with
  | none => (.error (.unknownNode id), e)
  | some n =>
    let (r, s) := n.onDelete.on e.scene
    (r.mapError .graph, (e.dismiss n s).drain)

def setRoot (e : Editor) (root : Option Id) : Outcome Unit :=
  match root with
  | none => (.ok (), { e with root := none })
  | some id =>
    if e.graph.hasNode id then (.ok (), { e with root := some id })
    else (.error (.graph (.nodeNotFound id)), e)

/-- Drop everything but the services and the settings. -/
def clear (e : Editor) : Editor :=
  { scene := { services := e.scene.services }, settings := e.settings }

end Editor

end DrawGraph
