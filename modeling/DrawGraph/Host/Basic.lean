import DrawGraph.Editor.Document
import DrawGraph.Editor.Frame
import DrawGraph.Host.Demo

/-!
# Runs

A host is an editor set up as a configuration says: with its shaders and assets, and with the
graph of a document or the demo graph. A run is a number of frames, of which one that fails does
not keep the next from being tried.
-/

namespace DrawGraph

structure Host where
  config : HostConfig
  editor : Editor

namespace Host

def message (err : EditorError) : String := "Editor error: " ++ err.message

def services (c : HostConfig) : Services :=
  { shaders := c.shaders.foldl (fun l s => (l.declare s.path s.vars).2) {}
    assets := (c.models ++ c.textures).foldl AssetStore.declare {} }

/-- A host with its graph; `file?` is what a path holds, if it can be read. -/
def start (c : HostConfig) (file? : String → Option String) : Except EditorError Host :=
  let e := Editor.new (services c) c.evaluation.toEvalSettings
  let (r, e) :=
    match c.graphPath with
    | some path => e.loadFile (file? path)
    | none => (Demo.build c).on e
  r.map fun () => ⟨c, e⟩

/-- Run frames. `last` is the report of the last frame that succeeded. -/
def frames (dt : Float32) : Nat → Option EvalReport → Editor → Option EvalReport × Editor
  | 0, last, e => (last, e)
  | n + 1, last, e =>
    match e.frame dt with
    | (.ok report, e) => frames dt n (some report) e
    | (.error _, e) => frames dt n last e

/-- Run the configured frames; the answer is the report of the last one that succeeded. -/
def run (h : Host) : Option EvalReport × Host :=
  let (last, e) := frames h.config.frameTime.value h.config.frames.toNat none h.editor
  (last, { h with editor := e })

def saved (h : Host) : Option (String × String) :=
  h.config.savePath.map fun path => (path, h.editor.save)

end Host

end DrawGraph
