import DrawGraph.Node

/-!
# Kinds of value

Each pin holds a value of one of six kinds. A kind can feed another when its values can be
converted: numbers into each other, a number into every vector, a vector into a longer one.
-/

namespace DrawGraph

inductive ValueKind
  | float | int | float2 | float3 | float4 | float4x4
deriving DecidableEq, Repr

namespace ValueKind

def all : List ValueKind := [float, int, float2, float3, float4, float4x4]

def name : ValueKind → String
  | float => "float"
  | int => "int"
  | float2 => "float2"
  | float3 => "float3"
  | float4 => "float4"
  | float4x4 => "float4x4"

def componentCount : ValueKind → Nat
  | float | int => 1
  | float2 => 2
  | float3 => 3
  | float4 => 4
  | float4x4 => 16

def nodeType : ValueKind → NodeType
  | float => .float
  | int => .int
  | float2 => .float2
  | float3 => .float3
  | float4 => .float4
  | float4x4 => .float4x4

def ofNodeType? : NodeType → Option ValueKind
  | .value | .float => some float
  | .int => some int
  | .float2 => some float2
  | .float3 => some float3
  | .float4 | .color => some float4
  | .float4x4 => some float4x4
  | _ => none

@[simp] theorem ofNodeType?_nodeType (k : ValueKind) : ofNodeType? k.nodeType = some k := by
  cases k <;> rfl

def canFeed : ValueKind → ValueKind → Bool
  | float, float4x4 => false
  | float, _ => true
  | int, int | int, float => true
  | float2, float2 | float2, float3 | float2, float4 => true
  | float3, float3 | float3, float4 => true
  | float4, float4 => true
  | float4x4, float4x4 => true
  | _, _ => false

@[simp] theorem canFeed_self (k : ValueKind) : k.canFeed k = true := by cases k <;> rfl

end ValueKind

inductive BindingType
  | float | float2 | float3 | float4 | float4x4 | int | texture
deriving DecidableEq, Repr

namespace BindingType

def all : List BindingType := [float, float2, float3, float4, float4x4, int, texture]

def name : BindingType → String
  | float => "float"
  | float2 => "float2"
  | float3 => "float3"
  | float4 => "float4"
  | float4x4 => "float4x4"
  | int => "int"
  | texture => "texture"

def ofName? (s : String) : Option BindingType := all.find? (·.name = s)

@[simp] theorem ofName?_name (t : BindingType) : ofName? t.name = some t := by
  cases t <;> decide

/-- A texture is passed by its index. -/
def kind : BindingType → ValueKind
  | float => .float
  | float2 => .float2
  | float3 => .float3
  | float4 => .float4
  | float4x4 => .float4x4
  | int | texture => .int

def componentCount (t : BindingType) : Nat := t.kind.componentCount

end BindingType

end DrawGraph
