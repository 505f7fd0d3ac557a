import DrawGraph.Editor.Basic

/-!
# Saving and loading

An editor is saved as a document, and a document that loads takes the place of all the editor
holds but its services and settings. Without a root the first render target becomes it.
-/

namespace DrawGraph

namespace Editor

def document (e : Editor) : Document := ⟨e.graph, e.root, e.nodes⟩

def save (e : Editor) : String := e.document.render e.values

/-- Let UI nodes act on being loaded, one after another. -/
def loadNodes : List UiNode → Scene → List UiNode × Scene
  | [], s => ([], s)
  | n :: ns, s =>
    let (n, s) := n.onLoad s
    let (ns, s) := loadNodes ns s
    (n :: ns, s)

/-- The editor that holds a document. -/
def ofDocument (d : Document) (services : Services) (settings : EvalSettings) : Editor :=
  let (nodes, s) := loadNodes d.nodes { graph := d.graph, services }
  { scene := { s with graph := { s.graph with outbox := [] } }
    bus := (nodes.filter (·.observes)).foldl (fun b n => (Bus.attach b n.id).1) []
    nodes
    root := d.root.or ((nodes.find? (·.isRenderTarget)).map (·.id))
    settings }

/-- Load the text of a document; on failure nothing changes. -/
def load (e : Editor) (text : String) : Outcome Unit :=
  match Document.parse text with
  | .error err => (.error (.persist err), e)
  | .ok d => (.ok (), ofDocument d e.scene.services e.settings)

/-- Load what a file held, or nothing if it could not be read. -/
def loadFile (e : Editor) (contents : Option String) : Outcome Unit :=
  match contents with
  | none => (.error (.persist .unreadable), e)
  | some text => e.load text

end Editor

end DrawGraph
