import DrawGraph.Service.DrawCall
import DrawGraph.Value.Arithmetic
import DrawGraph.Value.Store

/-!
# UI nodes

A UI node is one visual node of the editor. It owns an identity node of the graph and one pin
per operand and result: internal edges lead from the identity to the inputs and from the outputs
to the identity. Constants, cameras and transforms also keep the values they were loaded with,
which count as long as their pins have no box.
-/

namespace DrawGraph

inductive UiNodeKind
  | add | multiply | sine | time | scalar | vector2 | vector3 | vector4 | matrix4x4 | model
  | texture | shader | camera | transform | primitive | draw | renderTarget
deriving DecidableEq, Repr

namespace UiNodeKind

def all : List UiNodeKind :=
  [add, multiply, sine, time, scalar, vector2, vector3, vector4, matrix4x4, model, texture,
    shader, camera, transform, primitive, draw, renderTarget]

def tag (k : UiNodeKind) : Nat := all.idxOf k

def ofTag? (n : Nat) : Option UiNodeKind := all[n]?

@[simp] theorem ofTag?_tag (k : UiNodeKind) : ofTag? k.tag = some k := by cases k <;> rfl

/-- The name that error messages use. -/
def title : UiNodeKind → String
  | add => "Add"
  | multiply => "Multiply"
  | sine => "Sine"
  | time => "Time"
  | scalar => "Scalar"
  | vector2 => "Vector2"
  | vector3 => "Vector3"
  | vector4 => "Vector4"
  | matrix4x4 => "Matrix4x4"
  | model => "Model"
  | texture => "Texture"
  | shader => "Shader"
  | camera => "Camera"
  | transform => "Transform"
  | primitive => "Primitive"
  | draw => "Draw"
  | renderTarget => "RenderTarget"

def displayName : UiNodeKind → String
  | renderTarget => "Render Target"
  | k => k.title

end UiNodeKind

inductive ConstantKind
  | scalar | vector2 | vector3 | vector4 | matrix4x4
deriving DecidableEq, Repr

namespace ConstantKind

def valueKind : ConstantKind → ValueKind
  | scalar => .float
  | vector2 => .float2
  | vector3 => .float3
  | vector4 => .float4
  | matrix4x4 => .float4x4

def nodeType : ConstantKind → NodeType
  | scalar => .float
  | vector2 => .float2
  | vector3 => .float3
  | vector4 => .float4
  | matrix4x4 => .matrix4x4

end ConstantKind

inductive AssetKind
  | model | texture | shader
deriving DecidableEq, Repr

namespace AssetKind

def nodeType : AssetKind → NodeType
  | model => .model
  | texture => .texture
  | shader => .shader

def name : AssetKind → String
  | model => "model"
  | texture => "texture"
  | shader => "shader"

end AssetKind

structure Camera where
  id : Id
  position : Id
  target : Id
  output : Id
  /-- The vertical field of view in degrees. -/
  fov : Float32 := 60
  aspect : Float32 := 16 / 9
  near : Float32 := 0.1
  far : Float32 := 100
  loadedPosition : Vec3 := #v[0, 0, 5]
  loadedTarget : Vec3 := #v[0, 0, 0]
deriving DecidableEq

structure Transform where
  id : Id
  translation : Id
  rotation : Id
  scale : Id
  output : Id
  loadedTranslation : Vec3 := #v[0, 0, 0]
  loadedRotation : Vec3 := #v[0, 0, 0]
  loadedScale : Vec3 := #v[1, 1, 1]
deriving DecidableEq

/-- An input pin for one variable of the bound shader. -/
structure Binding where
  pin : Id
  name : String
  type : BindingType
deriving DecidableEq

structure Draw where
  id : Id
  shader : Id
  model : Id
  output : Id
  color : Vec3 := #v[0, 0, 0]
  bindings : List Binding := []
  /-- The index of the shader that the bindings belong to. -/
  bound : Int32 := noIndex
deriving DecidableEq

inductive UiNode
  | binary (op : BinaryOp) (id left right output : Id)
  | sine (id input output : Id)
  | time (id output : Id)
  | constant (kind : ConstantKind) (id output : Id) (loaded : Value)
  | asset (kind : AssetKind) (id output : Id) (path : Option String)
  | primitive (id output : Id) (shape : PrimitiveShape)
  | camera (c : Camera)
  | transform (t : Transform)
  | draw (d : Draw)
  | renderTarget (id input : Id) (ready : Bool)
deriving DecidableEq

namespace UiNode

def kind : UiNode → UiNodeKind
  | binary .add .. => .add
  | binary .multiply .. => .multiply
  | sine .. => .sine
  | time .. => .time
  | constant .scalar .. => .scalar
  | constant .vector2 .. => .vector2
  | constant .vector3 .. => .vector3
  | constant .vector4 .. => .vector4
  | constant .matrix4x4 .. => .matrix4x4
  | asset .model .. => .model
  | asset .texture .. => .texture
  | asset .shader .. => .shader
  | primitive .. => .primitive
  | camera _ => .camera
  | transform _ => .transform
  | draw _ => .draw
  | renderTarget .. => .renderTarget

def id : UiNode → Id
  | binary _ id .. => id
  | sine id .. => id
  | time id .. => id
  | constant _ id .. => id
  | asset _ id .. => id
  | primitive id .. => id
  | camera c => c.id
  | transform t => t.id
  | draw d => d.id
  | renderTarget id .. => id

def inputs : UiNode → List Id
  | binary _ _ left right _ => [left, right]
  | sine _ input _ => [input]
  | camera c => [c.position, c.target]
  | transform t => [t.translation, t.rotation, t.scale]
  | draw d => d.shader :: d.model :: d.bindings.map (·.pin)
  | renderTarget _ input _ => [input]
  | time .. | constant .. | asset .. | primitive .. => []

def outputs : UiNode → List Id
  | binary _ _ _ _ output => [output]
  | sine _ _ output => [output]
  | time _ output => [output]
  | constant _ _ output _ => [output]
  | asset _ _ output _ => [output]
  | primitive _ output _ => [output]
  | camera c => [c.output]
  | transform t => [t.output]
  | draw d => [d.output]
  | renderTarget .. => []

def pins (n : UiNode) : List Id := n.inputs ++ n.outputs

def observes : UiNode → Bool
  | draw _ | renderTarget .. => true
  | _ => false

def isRenderTarget : UiNode → Bool
  | renderTarget .. => true
  | _ => false

/-- What a constant gives: its box, or else the value it was loaded with. -/
def constantValue (values : ValueStore) (output : Id) (loaded : Value) : Value :=
  (values.get? output).getD loaded

end UiNode

namespace Camera

def radians (x : Float32) : Float32 := x * Float32.ofBits 0x3C8EFA35

def viewProjection (c : Camera) (eye target : Vec3) : Mat4 :=
  (Mat4.perspective (radians c.fov) c.aspect c.near c.far).mul (Mat4.lookAt eye target #v[0, 1, 0])

end Camera

/-- Scale, then turn about the axes by angles in radians, then move. -/
def Transform.compose (translation rotation scale : Vec3) : Mat4 :=
  Mat4.placement scale (Mat4.rotation rotation) translation

end DrawGraph
