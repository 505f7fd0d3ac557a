import DrawGraph.Config.Basic
import DrawGraph.Config.Quoted

/-!
# Writing a configuration

Each entry of a record or list stands on a line of its own, four columns further in than its
brackets, with a comma behind it. A list without entries stands on one line.
-/

namespace DrawGraph

namespace Config

def indent (depth : Nat) : String := String.ofList (List.replicate (4 * depth) ' ')

/-- Entries between brackets, of which the line stands `depth` steps in. -/
def block (opening closing : String) (depth : Nat) (entries : List String) : String :=
  if entries.isEmpty then opening ++ closing
  else
    opening ++ "\n" ++ String.join (entries.map fun e => indent (depth + 1) ++ e ++ ",\n") ++
      indent depth ++ closing

def recordText (name : String) (depth : Nat) (fields : List (String × String)) : String :=
  block (name ++ "(") ")" depth (fields.map fun (key, value) => key ++ ": " ++ value)

def listText (depth : Nat) (entries : List String) : String := block "[" "]" depth entries

def optionText : Option String → String
  | none => "None"
  | some s => "Some(" ++ quote s ++ ")"

def varText (depth : Nat) (v : ShaderVar) : String :=
  recordText "BindingVar" depth [("name", quote v.name), ("type_name", quote v.typeName)]

def ShaderEntry.text (depth : Nat) (s : ShaderEntry) : String :=
  recordText "ShaderDecl" depth
    [("path", quote s.path),
      ("bindings", listText (depth + 1) (s.vars.map (varText (depth + 2))))]

/-- Settings as a record with the given name, which may be empty. -/
def Settings.text (name : String) (depth : Nat) (s : Settings) : String :=
  recordText name depth [("max_visits", toString s.maxVisits), ("time_scale", s.timeScale.text)]

end Config

open Config in
def HostConfig.render (c : HostConfig) : String :=
  recordText "HostConfig" 0
    [("version", toString c.version.toNat),
      ("frames", toString c.frames.toNat),
      ("frame_dt", c.frameTime.text),
      ("graph_path", optionText c.graphPath),
      ("save_path", optionText c.savePath),
      ("log_filter", quote c.logFilter),
      ("eval", c.evaluation.text "EvalSettings" 1),
      ("shaders", listText 1 (c.shaders.map (·.text 2))),
      ("models", listText 1 (c.models.map quote)),
      ("textures", listText 1 (c.textures.map quote))]

end DrawGraph
