import DrawGraph.Config.Basic
import DrawGraph.Config.Skip

/-!
# Reading a configuration

A configuration is a record: fields in parentheses, after an optional name of the record. The
fields come in any order, none of them twice, and one that is not known is skipped.
-/

namespace DrawGraph

namespace Config

namespace Scan

def recordName (r : Rules) (name : String) : Scan Unit := do
  if (← peek?).any continuesIdentifier then
    if (← identifier) ≠ name then failure
  else if r.namedRecords then failure

/-- Take a record. `field` says how the value of a field is read into what has been read of the
record; values of other fields may nest up to `limit`. -/
def record {σ : Type} (r : Rules) (name : String) (limit : Nat)
    (field : String → Option (σ → Scan σ)) (s : σ) : Scan σ := do
  recordName r name
  blanks
  word "("
  let (s, _) ← items ")" (fun (s, seen) => do
    let key ← identifier
    blanks
    word ":"
    blanks
    match field key with
    | none => do
      anything r limit
      return (s, seen)
    | some read =>
      if key ∈ seen then failure
      else return (← read s, key :: seen)) (s, ([] : List String))
  return s

def list {α : Type} (item : Scan α) : Scan (List α) := do
  word "["
  items "]" (fun (xs : List α) => return xs ++ [← item]) []

def uint32 : Scan UInt32 := return .ofInt (← integerOf (.unsigned 32))

def number32 : Scan Number := number ["f32"]

def nesting : Nat := 128

def shaderVar (r : Rules) (limit : Nat) : Scan ShaderVar := do
  let s : Option String × Option String ← record r "BindingVar" (limit - 2) (fun
    | "name" => some fun s => return (some (← text), s.2)
    | "type_name" => some fun s => return (s.1, some (← text))
    | _ => none) (none, none)
  match s with
  | (some name, some typeName) => return ⟨name, typeName⟩
  | _ => failure

def shaderEntry (r : Rules) (limit : Nat) : Scan ShaderEntry := do
  let s : Option String × List ShaderVar ← record r "ShaderDecl" (limit - 2) (fun
    | "path" => some fun s => return (some (← text), s.2)
    | "bindings" => some fun s => return (s.1, ← list (shaderVar r (limit - 4)))
    | _ => none) (none, [])
  match s with
  | (some path, vars) => return ⟨path, vars⟩
  | _ => failure

def settings (r : Rules) (limit : Nat) : Scan Settings :=
  record r "EvalSettings" (limit - 2) (fun
    | "max_visits" => some fun s => do
      return { s with maxVisits := (← integerOf (.unsigned 64)).toNat }
    | "time_scale" => some fun s => return { s with timeScale := ← number32 }
    | _ => none) {}

def hostConfig (r : Rules) (limit : Nat) : Scan HostConfig :=
  record r "HostConfig" (limit - 2) (fun
    | "version" => some fun c => return { c with version := ← uint32 }
    | "frames" => some fun c => return { c with frames := ← uint32 }
    | "frame_dt" => some fun c => return { c with frameTime := ← number32 }
    | "graph_path" => some fun c => return { c with graphPath := ← option r text text }
    | "save_path" => some fun c => return { c with savePath := ← option r text text }
    | "log_filter" => some fun c => return { c with logFilter := ← text }
    | "eval" => some fun c => return { c with evaluation := ← settings r (limit - 2) }
    | "shaders" => some fun c => return { c with shaders := ← list (shaderEntry r (limit - 4)) }
    | "models" => some fun c => return { c with models := ← list text }
    | "textures" => some fun c => return { c with textures := ← list text }
    | _ => none) {}

/-- What a whole text holds, blanks and attributes around it aside. -/
def whole? {α : Type} (body : Rules → Nat → Scan α) (s : String) : Option α := do
  let scan : Scan α := do
    let r ← rules
    let a ← body r nesting
    blanks
    return a
  match ← StateT.run scan s.toList with
  | (a, []) => some a
  | _ => none

end Scan

def Settings.parse? (s : String) : Option Settings := Scan.whole? Scan.settings s

end Config

def HostConfig.parse (s : String) : Except ConfigError HostConfig :=
  match Config.Scan.whole? Config.Scan.hostConfig s with
  | none => .error .malformed
  | some c =>
    if c.version > newestVersion then .error (.unsupportedVersion c.version) else .ok c

end DrawGraph
