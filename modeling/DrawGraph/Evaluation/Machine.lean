import DrawGraph.Attempt
import DrawGraph.Evaluation.Error
import DrawGraph.Service.DrawCall
import DrawGraph.Value.Store

/-!
# The value stack

Nodes are reduced one after another against one stack of values. A reduction takes its operands
from the stack and leaves its result there; it may also store a value in a box, queue a draw
call and say whether the render target is ready. Of each node only the first draw call counts.
-/

namespace DrawGraph

/-- What a walk has done so far. The head of `stack` is its top; `owner` is the state of whoever
reduces nodes in place of the built-in rules. -/
structure Machine (σ : Type) where
  stack : List Value := []
  values : ValueStore
  calls : List DrawCall := []
  submitted : List Id := []
  ready : Option Bool := none
  owner : σ

structure Site where
  node : Id
  type : NodeType
  time : Float32

abbrev Reduction (σ : Type) (α : Type) := Attempt EvalError (Machine σ) α

namespace Machine

variable {σ : Type}

def push (v : Value) : Reduction σ Unit :=
  modify fun m => { m with stack := v :: m.stack }

/-- Take `n` values, in the order in which they were pushed. When there are fewer, none is
taken. -/
def pop (site : Site) (n : Nat) : Reduction σ (List Value) := do
  let m ← get
  if m.stack.length < n then throw (.malformed site.node site.type n m.stack.length)
  set { m with stack := m.stack.drop n }
  return (m.stack.take n).reverse

def pop₁ (site : Site) : Reduction σ Value := do
  return (← pop site 1).headD default

def pop₂ (site : Site) : Reduction σ (Value × Value) := do
  let vs ← pop site 2
  return (vs.headD default, vs.getD 1 default)

def pop₃ (site : Site) : Reduction σ (Value × Value × Value) := do
  let vs ← pop site 3
  return (vs.headD default, vs.getD 1 default, vs.getD 2 default)

def box? (pin : Id) : Reduction σ (Option Value) := do
  return (← get).values.get? pin

def emit (pin : Id) (v : Value) : Reduction σ Unit :=
  modify fun m => { m with values := m.values.put pin v, stack := v :: m.stack }

def submit (site : Site) (c : DrawCall) : Reduction σ Unit :=
  modify fun m =>
    if site.node ∈ m.submitted then m
    else { m with submitted := site.node :: m.submitted, calls := m.calls ++ [c] }

def setReady (b : Bool) : Reduction σ Unit :=
  modify fun m => { m with ready := some b }

def expect (site : Site) (v : Value) (k : ValueKind) : Reduction σ Value :=
  match v.coerce k with
  | some w => return w
  | none => throw (.typeMismatch site.node k v.kind)

def arithmetic (site : Site) (r : Except ValueError Value) : Reduction σ Value :=
  match r with
  | .ok v => return v
  | .error e => throw (.value site.node e)

end Machine

end DrawGraph
