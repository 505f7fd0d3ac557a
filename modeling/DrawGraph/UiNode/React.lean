import DrawGraph.UiNode.Scene

/-!
# How UI nodes react

UI nodes act on loading, on every frame, on events and on removal. A draw node keeps one input
for each variable of the shader linked to it: linking builds them, unlinking takes them away, and
they are built anew when the shader turns out to have other variables.
-/

namespace DrawGraph

structure Clock where
  elapsed : Float32 := 0
  delta : Float32 := 0
deriving DecidableEq

def Clock.advance (c : Clock) (dt : Float32) : Clock := ⟨c.elapsed + dt, dt⟩

namespace Draw

def reflected (s : Scene) (shader : Int32) : List (String × BindingType) :=
  if shader < 0 then []
  else
    match s.services.shaders.vars shader with
    | .ok vars => vars.filterMap fun v => (BindingType.ofName? v.typeName).map (v.name, ·)
    | .error _ => []

/-- Drop the inputs of the shader's variables. -/
def teardown (d : Draw) (s : Scene) : Draw × Scene :=
  ({ d with bindings := [] }, (Scene.eraseOwned (d.bindings.map (·.pin))).quietly s)

/-- Make an input for each variable. One that cannot be made is left out. -/
def build (d : Draw) (s : Scene) : List (String × BindingType) → Draw × Scene
  | [] => (d, s)
  | (name, type) :: vars =>
    match (Scene.addInput d.id (.ofKind type.kind)).on s with
    | (.ok pin, s) => build { d with bindings := d.bindings ++ [⟨pin, name, type⟩] } s vars
    | (.error _, s) => build d s vars

/-- Make the inputs those of a shader. When its variables are the ones there already, the inputs
stay. -/
def sync (d : Draw) (s : Scene) (shader : Int32) : Draw × Scene :=
  let vars := reflected s shader
  let d := { d with bound := shader }
  if vars = d.bindings.map (fun b => (b.name, b.type)) then (d, s)
  else
    let (d, s) := d.teardown s
    d.build s vars

def onEvent (d : Draw) (s : Scene) : Event → Draw × Scene
  | .linkCreated source target =>
    if source = d.shader then
      let shader := ((s.values.get? target).bind Value.index?).getD noIndex
      d.sync (s.write d.shader (.int shader)) shader
    else (d, s)
  | .linkDeleted source _ =>
    if source = d.shader then
      let (d, s) := d.teardown (s.write d.shader (.int noIndex))
      ({ d with bound := noIndex }, s)
    else (d, s)
  | .shaderUpdated shader =>
    if shader ≥ 0 ∧ shader = d.bound then d.sync s shader else (d, s)

end Draw

namespace UiNode

/-- Put the boxes of a loaded node in place and find its assets again. -/
def onLoad (n : UiNode) (s : Scene) : UiNode × Scene :=
  match n with
  | binary .. | sine .. | time .. => (n, n.pins.foldl (fun s pin => s.reload pin (.float 0)) s)
  | constant _ _ output loaded => (n, s.write output loaded)
  | asset kind _ output path =>
    let (index, s) := s.resolveAsset kind path
    (n, s.write output (.int index))
  | primitive _ output shape =>
    let (index, s) := s.resolvePrimitive shape
    (n, s.write output (.int index))
  | camera c =>
    let s := s.store c.position (.float3 c.loadedPosition)
    let s := s.store c.target (.float3 c.loadedTarget)
    (n, s.store c.output (.float4x4 (c.viewProjection c.loadedPosition c.loadedTarget)))
  | transform t =>
    let s := s.store t.translation (.float3 t.loadedTranslation)
    let s := s.store t.rotation (.float3 t.loadedRotation)
    let s := s.store t.scale (.float3 t.loadedScale)
    let m := Transform.compose t.loadedTranslation t.loadedRotation t.loadedScale
    (n, s.store t.output (.float4x4 m))
  | draw d =>
    let s := s.reload d.shader (.int noIndex)
    let s := s.reload d.model (.int noIndex)
    let s := s.reload d.output (.float 0)
    let s := d.bindings.foldl (fun s b => s.reload b.pin (.ofKind b.type.kind)) s
    (draw { d with bound := s.indexIn d.shader }, s)
  | renderTarget id input _ => (renderTarget id input false, s.reload input (.float 0))

/-- Take over the values of linked pins; a time node takes the clock's. -/
def onUpdate (n : UiNode) (clock : Clock) (s : Scene) : UiNode × Scene :=
  match n with
  | time _ output => (n, s.write output (.float clock.elapsed))
  | draw d =>
    let s := n.inputs.foldl Scene.pull s
    if (s.source? d.shader).isNone then (n, s)
    else if s.indexIn d.shader = d.bound then (n, s)
    else
      let (d, s) := d.sync s (s.indexIn d.shader)
      (draw d, s)
  | _ => (n, n.inputs.foldl Scene.pull s)

def onEvent (n : UiNode) (e : Event) (s : Scene) : UiNode × Scene :=
  match n, e with
  | draw d, e =>
    let (d, s) := d.onEvent s e
    (draw d, s)
  | renderTarget id input _, .shaderUpdated _ => (renderTarget id input false, s)
  | _, _ => (n, s)

def onDelete (n : UiNode) : Attempt GraphError Scene Unit := do
  Scene.eraseOwned n.pins
  Scene.eraseOwned [n.id]

end UiNode

end DrawGraph
