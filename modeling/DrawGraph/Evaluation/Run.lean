import DrawGraph.Evaluation.Machine
import DrawGraph.Evaluation.Order

/-!
# Evaluation

A pin or a value node adds its own value when nothing is linked to it, and otherwise lets through
what its target left on the stack. Every other node is reduced by its owner, or by the built-in
rule of its type when nobody owns it.
-/

namespace DrawGraph

structure EvalReport where
  top : Option Value
  ready : Option Bool
  calls : List DrawCall
  visited : Nat
deriving DecidableEq

/-- Whoever reduces nodes in place of the built-in rules; `false` leaves the node to those. -/
abbrev Owner (σ : Type) := Site → Reduction σ Bool

namespace Owner

def nobody : Owner Unit := fun _ => return false

end Owner

namespace Evaluation

open Machine

variable {σ : Type}

def binary (site : Site) (op : BinaryOp) : Reduction σ Unit := do
  let (a, b) ← pop₂ site
  push (← arithmetic site (Value.apply op a b))

/-- Six operands: two shaders, a model and three channels. -/
def draw (site : Site) : Reduction σ Unit := do
  let vs ← pop site 6
  let index (i : Nat) : Int32 := ((vs.getD i default).index?).getD noIndex
  let channel (i : Nat) : Float32 := Binary32.unitClamp (((vs.getD i default).scalar?).getD 0)
  let call : DrawCall :=
    { vertexShader := index 0
      pixelShader := index 1
      model := index 2
      color := #v[channel 3, channel 4, channel 5] }
  if call.isComplete then
    submit site call
    push (.float 1)
  else push (.float 0)

/-- The rule of a node that nobody owns, `scalar` being the node's own number. -/
def builtin (site : Site) (scalar : Float32) : Reduction σ Unit :=
  match site.type with
  | .add => binary site .add
  | .multiply => binary site .multiply
  | .sine => do push (← pop₁ site).absSin
  | .time => push (.float site.time)
  | .draw => draw site
  | .renderTarget => do setReady (← pop₁ site).isNonzero
  | .camera | .transform => throw (.unowned site.node site.type)
  | _ => do push ((← box? site.node).getD (.float scalar))

def visit (g : Graph) (time : Float32) (owner : Owner σ) (id : Id) : Reduction σ Unit :=
  match g.node? id with
  | none => throw (.graph (.nodeNotFound id))
  | some n =>
    if n.direction.isPin || n.type == .value then
      if g.outDegree id = 0 then do push ((← box? id).getD (.float n.value))
      else return ()
    else do
      let site : Site := ⟨id, n.type, time⟩
      if !(← owner site) then builtin site n.value

def replay (g : Graph) (time : Float32) (owner : Owner σ) : List Id → Reduction σ Unit
  | [] => return ()
  | id :: ids => do
    visit g time owner id
    replay g time owner ids

def report (m : Machine σ) (visited : Nat) : EvalReport :=
  ⟨m.stack.head?, m.ready, m.calls, visited⟩

/-- Evaluate a graph from its root. The boxes and the owner's state come back also from a walk
that failed, as that left them. -/
def run (g : Graph) (settings : EvalSettings) (root : Id) (time : Float32) (owner : Owner σ)
    (values : ValueStore) (state : σ) : Except EvalError EvalReport × ValueStore × σ :=
  match g.reductionOrder settings root with
  | .error e => (.error e, values, state)
  | .ok order =>
    let (r, m) := (replay g time owner order).on { values := values, owner := state }
    (r.map fun _ => report m order.length, m.values, m.owner)

end Evaluation

end DrawGraph
