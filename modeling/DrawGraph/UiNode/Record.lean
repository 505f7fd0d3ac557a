import DrawGraph.Record.Reader
import DrawGraph.UiNode.Basic

/-!
# Records of UI nodes

The record of a UI node starts with the ids of its identity and pins and goes on with what else
belongs to it. A draw node takes one more line for each input of a shader variable.
-/

namespace DrawGraph

namespace UiNode

def storedVec3 (values : ValueStore) (pin : Id) (fallback : Vec3) : Vec3 :=
  match values.get? pin with
  | some (.float3 v) => v
  | _ => fallback

def bindingLine (b : Binding) : Line := [.id b.pin, .word b.name, .word b.type.name]

/-- The lines of a record, the first without the word and the tag that introduce it. -/
def record (values : ValueStore) : UiNode → Line × List Line
  | binary _ id left right output => ([.id id, .id left, .id right, .id output], [])
  | sine id input output => ([.id id, .id input, .id output], [])
  | time id output => ([.id id, .id output], [])
  | constant _ id output loaded =>
    ([.id id, .id output, .value (constantValue values output loaded)], [])
  | asset _ id output path => ([.id id, .id output, .text path], [])
  | primitive id output shape => ([.id id, .id output, .unsigned (.ofNat shape.tag)], [])
  | camera c =>
    ([.id c.id, .id c.position, .id c.target, .id c.output,
      .number c.fov, .number c.aspect, .number c.near, .number c.far,
      .value (.float3 (storedVec3 values c.position c.loadedPosition)),
      .value (.float3 (storedVec3 values c.target c.loadedTarget))], [])
  | transform t =>
    ([.id t.id, .id t.translation, .id t.rotation, .id t.scale, .id t.output,
      .value (.float3 (storedVec3 values t.translation t.loadedTranslation)),
      .value (.float3 (storedVec3 values t.rotation t.loadedRotation)),
      .value (.float3 (storedVec3 values t.scale t.loadedScale))], [])
  | draw d =>
    ([.id d.id, .id d.model, .id d.shader, .id d.output, .unsigned (.ofNat d.bindings.length),
      .value (.float3 d.color)], d.bindings.map bindingLine)
  | renderTarget id input _ => ([.id id, .id input], [])

open Reading

def readBinary (op : BinaryOp) : Reading UiNode :=
  return .binary op (← ident) (← ident) (← ident) (← ident)

def readConstant (kind : ConstantKind) : Reading UiNode :=
  return .constant kind (← ident) (← ident) (← value kind.valueKind)

def readAsset (kind : AssetKind) : Reading UiNode :=
  return .asset kind (← ident) (← ident) (← text)

def readBinding : Reading Binding := do
  nextLine
  let pin ← ident
  let name ← string
  let typeName ← string
  match BindingType.ofName? typeName with
  | some type => return ⟨pin, name, type⟩
  | none => fail (.bindingType typeName)

def readBindings : Nat → Reading (List Binding)
  | 0 => return []
  | n + 1 => return (← readBinding) :: (← readBindings n)

def readDraw : Reading UiNode := do
  let id ← ident
  let model ← ident
  let shader ← ident
  let output ← ident
  let count ← Reading.count
  let color ← numbers 3
  let bindings ← readBindings count
  return .draw { id, shader, model, output, color, bindings }

def readCamera : Reading UiNode := do
  let id ← ident
  let position ← ident
  let target ← ident
  let output ← ident
  let fov ← number
  let aspect ← number
  let near ← number
  let far ← number
  let loadedPosition ← numbers 3
  let loadedTarget ← numbers 3
  return .camera
    { id, position, target, output, fov, aspect, near, far, loadedPosition, loadedTarget }

def readTransform : Reading UiNode := do
  let id ← ident
  let translation ← ident
  let rotation ← ident
  let scale ← ident
  let output ← ident
  let loadedTranslation ← numbers 3
  let loadedRotation ← numbers 3
  let loadedScale ← numbers 3
  return .transform
    { id, translation, rotation, scale, output, loadedTranslation, loadedRotation, loadedScale }

def read : UiNodeKind → Reading UiNode
  | .add => readBinary .add
  | .multiply => readBinary .multiply
  | .sine => return .sine (← ident) (← ident) (← ident)
  | .time => return .time (← ident) (← ident)
  | .scalar => readConstant .scalar
  | .vector2 => readConstant .vector2
  | .vector3 => readConstant .vector3
  | .vector4 => readConstant .vector4
  | .matrix4x4 => readConstant .matrix4x4
  | .model => readAsset .model
  | .texture => readAsset .texture
  | .shader => readAsset .shader
  | .camera => readCamera
  | .transform => readTransform
  | .primitive =>
    return .primitive (← ident) (← ident) (← tagged "primitive shape" PrimitiveShape.ofTag?)
  | .draw => readDraw
  | .renderTarget => return .renderTarget (← ident) (← ident) false

end UiNode

end DrawGraph
