import DrawGraph.Evaluation.Run
import DrawGraph.UiNode.Basic

/-!
# Reducing UI nodes

The reduction of a UI node takes one value per input from the stack and stores its result in its
output box as well. The node that comes back differs from the one given only in whether a render
target is ready.
-/

namespace DrawGraph

open Machine

variable {σ : Type}

namespace Draw

/-- The values of the shader's variables, each of its own kind. -/
def constants (site : Site) : List Binding → List Value → Reduction σ (List Constant)
  | b :: bs, v :: vs => do
    let w ← expect site v b.type.kind
    return ⟨b.name, b.type, w⟩ :: (← constants site bs vs)
  | _, _ => return []

def reduce (d : Draw) (site : Site) : Reduction σ Unit := do
  let vs ← pop site (2 + d.bindings.length)
  let index (i : Nat) : Int32 := ((vs.getD i default).index?).getD noIndex
  let call : DrawCall :=
    { vertexShader := index 0
      pixelShader := index 0
      model := index 1
      color := d.color.map Binary32.unitClamp
      bindings := ← constants site d.bindings (vs.drop 2) }
  if call.isComplete then
    submit site call
    emit d.output (.float 1)
  else emit d.output (.float 0)

end Draw

def expectVec3 (site : Site) (v : Value) : Reduction σ Vec3 := do
  match ← expect site v .float3 with
  | .float3 w => return w
  | w => throw (.typeMismatch site.node .float3 w.kind)

def Camera.reduce (c : Camera) (site : Site) : Reduction σ Unit := do
  let (eye, target) ← pop₂ site
  let eye ← expectVec3 site eye
  let target ← expectVec3 site target
  emit c.output (.float4x4 (c.viewProjection eye target))

def Transform.reduce (t : Transform) (site : Site) : Reduction σ Unit := do
  let (move, turn, scale) ← pop₃ site
  let move ← expectVec3 site move
  let turn ← expectVec3 site turn
  let scale ← expectVec3 site scale
  emit t.output (.float4x4 (Transform.compose move turn scale))

namespace UiNode

def reduce (n : UiNode) (site : Site) : Reduction σ UiNode := do
  match n with
  | binary op _ _ _ out =>
    let (a, b) ← pop₂ site
    emit out (← arithmetic site (Value.apply op a b))
    return n
  | sine _ _ out =>
    emit out (← pop₁ site).absSin
    return n
  | time _ out =>
    emit out (.float site.time)
    return n
  | constant _ _ out loaded =>
    push (constantValue (← get).values out loaded)
    return n
  | asset _ _ out _ | primitive _ out _ =>
    push ((← box? out).getD (.int noIndex))
    return n
  | camera c =>
    c.reduce site
    return n
  | transform t =>
    t.reduce site
    return n
  | draw d =>
    d.reduce site
    return n
  | renderTarget id input _ =>
    let ready := (← pop₁ site).isNonzero
    setReady ready
    return renderTarget id input ready

end UiNode

end DrawGraph
