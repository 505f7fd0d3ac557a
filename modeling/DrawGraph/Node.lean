/-!
# Nodes

A node of the graph is an identity node, which stands for an operation, or a pin. Its type,
its direction and one number are all that the graph keeps of it. Types and directions have
integer tags, by which documents name them.
-/

namespace DrawGraph

/-- Nodes and edges are numbered from one counter. -/
abbrev Id := UInt32

inductive NodeType
  | value | add | multiply | draw | sine | time | renderTarget | primitive | shader | color
  | float | float2 | float3 | float4 | float4x4 | int | model | texture | camera | transform
  | matrix4x4
deriving DecidableEq, Repr

namespace NodeType

def all : List NodeType :=
  [value, add, multiply, draw, sine, time, renderTarget, primitive, shader, color, float, float2,
    float3, float4, float4x4, int, model, texture, camera, transform, matrix4x4]

def tag (t : NodeType) : Nat := all.idxOf t

def ofTag? (n : Nat) : Option NodeType := all[n]?

@[simp] theorem ofTag?_tag (t : NodeType) : ofTag? t.tag = some t := by cases t <;> rfl

def name : NodeType → String
  | value => "value"
  | add => "add"
  | multiply => "multiply"
  | draw => "draw"
  | sine => "sine"
  | time => "time"
  | renderTarget => "render_target"
  | primitive => "primitive"
  | shader => "shader"
  | color => "color"
  | float => "float"
  | float2 => "float2"
  | float3 => "float3"
  | float4 => "float4"
  | float4x4 => "float4x4"
  | int => "int"
  | model => "model"
  | texture => "texture"
  | camera => "camera"
  | transform => "transform"
  | matrix4x4 => "matrix4x4"

/-- The name that error messages use. -/
def title : NodeType → String
  | renderTarget => "RenderTarget"
  | t => t.name.capitalize

end NodeType

inductive Direction
  | none | input | output
deriving DecidableEq, Repr

namespace Direction

def all : List Direction := [none, input, output]

def tag (d : Direction) : Nat := all.idxOf d

def ofTag? (n : Nat) : Option Direction := all[n]?

@[simp] theorem ofTag?_tag (d : Direction) : ofTag? d.tag = some d := by cases d <;> rfl

def isPin (d : Direction) : Bool := d != none

end Direction

structure Node where
  type : NodeType
  direction : Direction := .none
  value : Float32 := 0
deriving DecidableEq

end DrawGraph
