import DrawGraph.UiNode.Scene

/-!
# Making UI nodes

A new UI node gets its identity first, then its inputs, then its output, each with a box. When
ids run out half way, what was made so far stays.
-/

namespace DrawGraph

namespace UiNode

open Scene

def createBinary (op : BinaryOp) (type : NodeType) : Attempt GraphError Scene UiNode := do
  let id ← addIdentity type
  let left ← addInput id (.float 0)
  let right ← addInput id (.float 0)
  let output ← addOutput id (.float 0)
  return .binary op id left right output

def createConstant (kind : ConstantKind) : Attempt GraphError Scene UiNode := do
  let initial := Value.ofKind kind.valueKind
  let id ← addIdentity kind.nodeType
  let output ← addOutput id initial
  return .constant kind id output initial

def createAsset (kind : AssetKind) : Attempt GraphError Scene UiNode := do
  let id ← addIdentity kind.nodeType
  let (index, s) := (← get).resolveAsset kind none
  set s
  let output ← addOutput id (.int index)
  return .asset kind id output none

def createPrimitive : Attempt GraphError Scene UiNode := do
  let id ← addIdentity .primitive
  let (index, s) := (← get).resolvePrimitive .cube
  set s
  let output ← addOutput id (.int index)
  return .primitive id output .cube

def create : UiNodeKind → Attempt GraphError Scene UiNode
  | .add => createBinary .add .add
  | .multiply => createBinary .multiply .multiply
  | .sine => do
    let id ← addIdentity .sine
    let input ← addInput id (.float 0)
    let output ← addOutput id (.float 0)
    return .sine id input output
  | .time => do
    let id ← addIdentity .time
    let output ← addOutput id (.float 0)
    return .time id output
  | .scalar => createConstant .scalar
  | .vector2 => createConstant .vector2
  | .vector3 => createConstant .vector3
  | .vector4 => createConstant .vector4
  | .matrix4x4 => createConstant .matrix4x4
  | .model => createAsset .model
  | .texture => createAsset .texture
  | .shader => createAsset .shader
  | .primitive => createPrimitive
  | .camera => do
    let id ← addIdentity .camera
    let position ← addInput id (.float3 #v[0, 0, 5])
    let target ← addInput id (.float3 #v[0, 0, 0])
    let output ← addOutput id (.ofKind .float4x4)
    return .camera { id, position, target, output }
  | .transform => do
    let id ← addIdentity .transform
    let translation ← addInput id (.float3 #v[0, 0, 0])
    let rotation ← addInput id (.float3 #v[0, 0, 0])
    let scale ← addInput id (.float3 #v[1, 1, 1])
    let output ← addOutput id (.ofKind .float4x4)
    return .transform { id, translation, rotation, scale, output }
  | .draw => do
    let id ← addIdentity .draw
    let shader ← addInput id (.int noIndex)
    let model ← addInput id (.int noIndex)
    let output ← addOutput id (.float 0)
    return .draw { id, shader, model, output }
  | .renderTarget => do
    let id ← addIdentity .renderTarget
    let input ← addInput id (.float 0)
    return .renderTarget id input false

end UiNode

end DrawGraph
