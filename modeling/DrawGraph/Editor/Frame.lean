import DrawGraph.Editor.Basic
import DrawGraph.UiNode.Reduce

/-!
# Frames

In a frame the clock advances, each UI node takes over what is linked to it, and then the graph
is evaluated from the root. The draw calls of an evaluation reach the renderer only when all of
it succeeded; a render target whose evaluation failed is not ready.
-/

namespace DrawGraph

namespace Editor

/-- Let one UI node, if it is still there, take over what is linked to it. -/
def updateNode (e : Editor) (id : Id) : Editor :=
  match e.node? id with
  | none => e
  | some n => (e.act n (·.onUpdate e.clock)).drain

def tick (e : Editor) (dt : Float32) : Editor :=
  { e with clock := e.clock.advance (dt * e.settings.timeScale) }

def update (e : Editor) (dt : Float32) : Editor :=
  (e.nodes.map (·.id)).foldl updateNode (e.tick dt)

/-- The UI nodes reduce the identities that they own. -/
def owners : Owner (List UiNode) := fun site => do
  match (← get).owner.find? (·.id == site.node) with
  | none => return false
  | some n =>
    let n ← n.reduce site
    modify fun m => { m with owner := m.owner.map fun k => if k.id = n.id then n else k }
    return true

/-- Hand a draw call to the renderer, which may refuse it. -/
def render (s : Services) (c : DrawCall) : Services :=
  match s.renderer.render c with
  | .ok r => { s with renderer := r }
  | .error _ => s

def invalidate (e : Editor) (id : Id) : Editor :=
  match e.node? id with
  | some (.renderTarget id input _) => e.replace (.renderTarget id input false)
  | _ => e

def evaluate (e : Editor) : Outcome EvalReport :=
  match e.root with
  | none => (.error (.eval .missingRoot), e)
  | some root =>
    let (r, values, nodes) :=
      Evaluation.run e.graph e.settings root e.clock.elapsed owners e.values e.nodes
    let e : Editor := { e with scene := { e.scene with values }, nodes }
    match r with
    | .error err => (.error (.eval err), e.invalidate root)
    | .ok report =>
      let services := report.calls.foldl render e.scene.services
      (.ok report, { e with scene := { e.scene with services } })

def frame (e : Editor) (dt : Float32) : Outcome EvalReport := (e.update dt).evaluate

end Editor

end DrawGraph
