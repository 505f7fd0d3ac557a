import DrawGraph.Config.Number
import DrawGraph.Evaluation.Order
import DrawGraph.Service.Shader

/-!
# Configuration of a run

A run takes its shaders, assets, graph, frames and limits from a configuration. Every field has a
default.
-/

namespace DrawGraph

namespace Config

structure Settings where
  maxVisits : Nat := 65536
  timeScale : Number := { value := 1 }
deriving DecidableEq

namespace Settings

def agrees (a b : Settings) : Bool :=
  a.maxVisits == b.maxVisits && a.timeScale.agrees b.timeScale

def toEvalSettings (s : Settings) : EvalSettings := ⟨s.maxVisits, s.timeScale.value⟩

end Settings

structure ShaderEntry where
  path : String
  vars : List ShaderVar := []
deriving DecidableEq

end Config

structure HostConfig where
  version : UInt32 := 1
  frames : UInt32 := 3
  frameTime : Config.Number := { value := 1 / 60 }
  /-- The document to load. Without one, a demo graph is built. -/
  graphPath : Option String := none
  /-- Where to save the document after the run. -/
  savePath : Option String := none
  logFilter : String := "nodeshade=info,nodeshade_graph=info"
  evaluation : Config.Settings := {}
  shaders : List Config.ShaderEntry := []
  models : List String := []
  textures : List String := []
deriving DecidableEq

namespace HostConfig

def newestVersion : UInt32 := 1

/-- Whether two configurations are equal, numbers compared as numbers. -/
def agrees (a b : HostConfig) : Bool :=
  a.version == b.version && a.frames == b.frames && a.frameTime.agrees b.frameTime &&
    a.graphPath == b.graphPath && a.savePath == b.savePath && a.logFilter == b.logFilter &&
    a.evaluation.agrees b.evaluation && a.shaders == b.shaders && a.models == b.models &&
    a.textures == b.textures

end HostConfig

inductive ConfigError
  | unreadable
  | malformed
  | unsupportedVersion (found : UInt32)
deriving DecidableEq, Repr

/-- The text of an error, empty where the system or the format gives it. -/
def ConfigError.message : ConfigError → String
  | unreadable => ""
  | malformed => ""
  | unsupportedVersion found =>
    s!"Config version {found} is newer than supported version {HostConfig.newestVersion}"

end DrawGraph
