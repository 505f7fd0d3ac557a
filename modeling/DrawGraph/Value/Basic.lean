import DrawGraph.Binary32.Basic
import DrawGraph.Value.Kind
import DrawGraph.Value.Matrix

/-!
# Values

A value is a number, an integer, a vector or a matrix. Conversion between kinds follows
`ValueKind.canFeed`.
-/

namespace DrawGraph

inductive Value
  | float (x : Float32)
  | int (n : Int32)
  | float2 (v : Vector Float32 2)
  | float3 (v : Vec3)
  | float4 (v : Vec4)
  | float4x4 (m : Mat4)
deriving DecidableEq

def noIndex : Int32 := -1

namespace Value

instance : Inhabited Value := ⟨float 0⟩

def kind : Value → ValueKind
  | float _ => .float
  | int _ => .int
  | float2 _ => .float2
  | float3 _ => .float3
  | float4 _ => .float4
  | float4x4 _ => .float4x4

/-- What a pin of a kind holds before anything is stored. -/
def ofKind : ValueKind → Value
  | .float => float 0
  | .int => int noIndex
  | .float2 => float2 (Vector.replicate 2 0)
  | .float3 => float3 (Vector.replicate 3 0)
  | .float4 => float4 (Vector.replicate 4 0)
  | .float4x4 => float4x4 Mat4.identity

@[simp] theorem kind_ofKind (k : ValueKind) : (ofKind k).kind = k := by cases k <;> rfl

def scalar? : Value → Option Float32
  | float x => some x
  | int n => some (Binary32.ofInt32 n)
  | _ => none

def index? : Value → Option Int32
  | int n => some n
  | float x => some (Binary32.toInt32 x)
  | _ => none

def components : Value → List Float32
  | float x => [x]
  | int n => [Binary32.ofInt32 n]
  | float2 v => v.toList
  | float3 v => v.toList
  | float4 v => v.toList
  | float4x4 m => m.toList

theorem length_components (v : Value) : v.components.length = v.kind.componentCount := by
  cases v <;> simp [components, kind, ValueKind.componentCount]

/-- Whether a number differs from both zeros; NaN does. -/
def differsFromZero (x : Float32) : Bool := !Float32.beq x 0

def isNonzero : Value → Bool
  | int n => n != 0
  | v => v.components.any differsFromZero

/-- The value as another kind, if its own can feed that. Vectors are filled up with zeros. -/
def coerce : Value → ValueKind → Option Value
  | int n, .float => some (float (Binary32.ofInt32 n))
  | float x, .int => some (int (Binary32.toInt32 x))
  | float x, .float2 => some (float2 (Vector.replicate 2 x))
  | float x, .float3 => some (float3 (Vector.replicate 3 x))
  | float x, .float4 => some (float4 (Vector.replicate 4 x))
  | float2 v, .float3 => some (float3 (v.push 0))
  | float2 v, .float4 => some (float4 ((v.push 0).push 0))
  | float3 v, .float4 => some (float4 (v.push 0))
  | v, k => if v.kind = k then some v else none

theorem coerce_isSome (v : Value) (k : ValueKind) : (v.coerce k).isSome = v.kind.canFeed k := by
  cases v <;> cases k <;> rfl

theorem kind_of_coerce {v w : Value} {k : ValueKind} (h : v.coerce k = some w) : w.kind = k := by
  cases v <;> cases k <;> simp_all [coerce, kind] <;> subst h <;> rfl

/-- The same function on every component; an integer becomes a number. -/
def map (f : Float32 → Float32) : Value → Value
  | float x => float (f x)
  | int n => float (f (Binary32.ofInt32 n))
  | float2 v => float2 (v.map f)
  | float3 v => float3 (v.map f)
  | float4 v => float4 (v.map f)
  | float4x4 m => float4x4 (m.map f)

/-- Whether two values are of one kind and agree as numbers, so that NaN agrees with nothing. -/
def agrees : Value → Value → Bool
  | int a, int b => a == b
  | a, b => a.kind == b.kind && (a.components.zip b.components).all fun (x, y) => Float32.beq x y

/-- The size of the sine of every component. -/
def absSin (v : Value) : Value := v.map fun x => x.sin.abs

end Value

end DrawGraph
