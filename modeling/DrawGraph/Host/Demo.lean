import DrawGraph.Attempt
import DrawGraph.Config.Basic
import DrawGraph.Editor.Assign

/-!
# The demo graph

The demo graph draws one model with one shader into a render target. Every variable of the shader
is fed by a node of its own that gives values of the variable's kind; numbers pulse with a clock
that all of them share.
-/

namespace DrawGraph

namespace Demo

abbrev Build (α : Type) := Attempt EditorError Editor α

def add (kind : UiNodeKind) : Build Id := .of (·.addNode kind)

def link (input output : Id) : Build Unit := do
  discard (Attempt.of (·.link input output) : Build Id)

def setAsset (id : Id) (path : Option String) : Build Unit := do
  discard (Attempt.of (·.setAsset id path) : Build Int32)

/-- Something of the UI node with a given identity. -/
def ofNode {α : Type} (id : Id) (f : UiNode → Option α) : Build α := .of fun e =>
  match (e.node? id).bind f with
  | some a => (.ok a, e)
  | none => (.error (.unknownNode id), e)

def output (id : Id) : Build Id := ofNode id (·.outputs.head?)

def input (id : Id) : Build Id := ofNode id (·.inputs.head?)

def drawOf (id : Id) : Build Draw := ofNode id fun
  | .draw d => some d
  | _ => none

def occurs (word : List Char) : List Char → Bool
  | [] => word.isEmpty
  | c :: cs => word.isPrefixOf (c :: cs) || occurs word cs

/-- The kind of the node that feeds a variable. A matrix with a name that speaks of a view comes
from a camera. -/
def feederKind (kind : ValueKind) (name : String) : UiNodeKind :=
  match kind with
  | .float => .sine
  | .int => .texture
  | .float2 => .vector2
  | .float3 => .vector3
  | .float4 => .vector4
  | .float4x4 =>
    if occurs "view".toList (name.toList.map Char.toLower) then .camera else .transform

/-- The clock's output, with the clock added when there is none yet. -/
def clockOutput : Option Id → Build Id
  | some clock => return clock
  | none => do output (← add .time)

/-- Feed one variable. `clock` is the clock's output if it is there, and so is the answer. -/
def feed (c : HostConfig) (clock : Option Id) (b : Binding) : Build (Option Id) := do
  let kind := feederKind b.type.kind b.name
  let feeder ← add kind
  let clock ← match kind with
    | .sine => do
      let time ← clockOutput clock
      link (← input feeder) time
      pure (some time)
    | .texture => do
      setAsset feeder c.textures.head?
      pure clock
    | _ => pure clock
  link b.pin (← output feeder)
  return clock

/-- The node of the model, or of a primitive when no model is configured. -/
def addModel (c : HostConfig) : Build Id := do
  match c.models.head? with
  | some path => do
    let model ← add .model
    setAsset model (some path)
    return model
  | none => add .primitive

def color : Vec3 := #v[0.2, 0.4, 0.8]

def build (c : HostConfig) : Build Unit := do
  let shader ← add .shader
  setAsset shader (c.shaders.head?.map (·.path))
  let model ← addModel c
  let draw ← add .draw
  Attempt.of (·.setColor draw color)
  let target ← add .renderTarget
  let pins ← drawOf draw
  link pins.shader (← output shader)
  link pins.model (← output model)
  discard ((← drawOf draw).bindings.foldlM (feed c) none)
  let drawn ← output draw
  link (← input target) drawn

end Demo

end DrawGraph
