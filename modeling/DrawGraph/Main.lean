import DrawGraph.Config.Reader
import DrawGraph.Host.Basic

/-!
# Command line

The only argument is the path of a configuration; without it the defaults count.
-/

namespace DrawGraph

def contents? (path : String) : IO (Option String) := do
  try return some (← IO.FS.readFile path) catch _ => return none

def readConfig : List String → IO (Except ConfigError HostConfig)
  | [] => return .ok {}
  | path :: _ => do
    match ← contents? path with
    | some text => return HostConfig.parse text
    | none => return .error .unreadable

def fail (message : String) : IO UInt32 := do
  IO.eprintln message
  return 1

def runHost (c : HostConfig) : IO UInt32 := do
  let graph ← match c.graphPath with
    | some path => contents? path
    | none => pure none
  match Host.start c fun _ => graph with
  | .error err => fail ("Failed to set up the graph: " ++ Host.message err)
  | .ok host => do
    let (_, host) := host.run
    match host.saved with
    | none => return 0
    | some (path, text) => do
      try
        IO.FS.writeFile path text
        return 0
      catch _ => fail ("Host failed: " ++ Host.message (.persist .unreadable))

end DrawGraph

def main (args : List String) : IO UInt32 := do
  match ← DrawGraph.readConfig args with
  | .error err => DrawGraph.fail ("Failed to load the configuration: " ++ err.message)
  | .ok c => DrawGraph.runHost c
