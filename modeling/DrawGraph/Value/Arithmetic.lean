import DrawGraph.Value.Basic

/-!
# Sums and products of values

Integers wrap around. Vectors of one kind combine by component, a number combines with every
component, and products with a matrix are those of linear algebra.
-/

namespace DrawGraph

inductive BinaryOp
  | add | multiply
deriving DecidableEq, Repr

namespace BinaryOp

def verb : BinaryOp → String
  | add => "add"
  | multiply => "multiply"

def onInt : BinaryOp → Int32 → Int32 → Int32
  | add => (· + ·)
  | multiply => (· * ·)

def onFloat : BinaryOp → Float32 → Float32 → Float32
  | add => (· + ·)
  | multiply => (· * ·)

end BinaryOp

structure ValueError where
  op : BinaryOp
  lhs : ValueKind
  rhs : ValueKind
deriving DecidableEq

def ValueError.message (e : ValueError) : String :=
  "Cannot " ++ e.op.verb ++ " " ++ e.lhs.name ++ " and " ++ e.rhs.name

namespace Value

/-- Combine by component, a number with every component. -/
def combine (op : BinaryOp) : Value → Value → Except ValueError Value
  | float2 a, float2 b => .ok (float2 (Vector.zipWith op.onFloat a b))
  | float3 a, float3 b => .ok (float3 (Vector.zipWith op.onFloat a b))
  | float4 a, float4 b => .ok (float4 (Vector.zipWith op.onFloat a b))
  | float4x4 a, float4x4 b => .ok (float4x4 (Vector.zipWith op.onFloat a b))
  | a, b =>
    match a.scalar?, b.scalar? with
    | some x, some y => .ok (float (op.onFloat x y))
    | some x, none => .ok (b.map (op.onFloat x))
    | none, some y => .ok (a.map (op.onFloat · y))
    | none, none => .error ⟨op, a.kind, b.kind⟩

def apply : BinaryOp → Value → Value → Except ValueError Value
  | op, int a, int b => .ok (int (op.onInt a b))
  | .multiply, float4x4 a, float4x4 b => .ok (float4x4 (a.mul b))
  | .multiply, float4x4 m, float4 v => .ok (float4 (m.mulVec v))
  | .multiply, float4 v, float4x4 m => .ok (float4 (m.transpose.mulVec v))
  | op, a, b => combine op a b

def add (a b : Value) : Except ValueError Value := apply .add a b

def mul (a b : Value) : Except ValueError Value := apply .multiply a b

end Value

end DrawGraph
