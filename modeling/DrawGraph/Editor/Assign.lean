import DrawGraph.Editor.Link

/-!
# Setting values

Values of pins, paths of assets, shapes, colors and lenses are set here. A value is converted to
the kind that the pin's box holds.
-/

namespace DrawGraph

namespace Editor

def setPin (e : Editor) (pin : Id) (v : Value) : Outcome Unit :=
  match e.pinKind pin with
  | .error err => (.error err, e)
  | .ok kind =>
    match v.coerce kind with
    | some w => (.ok (), { e with scene := e.scene.write pin w })
    | none => (.error (.store (.typeMismatch pin kind v.kind)), e)

def pinValue (e : Editor) (pin : Id) : Except EditorError Value :=
  (e.values.fetch pin).mapError .store

/-- Change a UI node for which `f` is defined; `expected` names such nodes. -/
def withNode {α : Type} (e : Editor) (id : Id) (expected : String)
    (f : UiNode → Option (Scene → α × UiNode × Scene)) : Outcome α :=
  match e.node? id with
  | none => (.error (.unknownNode id), e)
  | some n =>
    match f n with
    | none => (.error (.wrongKind id expected n.kind), e.drain)
    | some g =>
      let (a, n, s) := g e.scene
      (.ok a, (({ e with scene := s } : Editor).replace n).drain)

/-- Name the asset of a model, texture or shader node; the answer is its index. -/
def setAsset (e : Editor) (id : Id) (path : Option String) : Outcome Int32 :=
  e.withNode id "asset node" fun
    | .asset kind id output _ => some fun s =>
      let (index, s) := s.resolveAsset kind path
      (index, .asset kind id output path, s.write output (.int index))
    | _ => none

def setShape (e : Editor) (id : Id) (shape : PrimitiveShape) : Outcome Int32 :=
  e.withNode id "primitive node" fun
    | .primitive id output _ => some fun s =>
      let (index, s) := s.resolvePrimitive shape
      (index, .primitive id output shape, s.write output (.int index))
    | _ => none

def setColor (e : Editor) (id : Id) (color : Vec3) : Outcome Unit :=
  e.withNode id "draw node" fun
    | .draw d => some fun s => ((), .draw { d with color }, s)
    | _ => none

def setLens (e : Editor) (id : Id) (fov aspect near far : Float32) : Outcome Unit :=
  e.withNode id "camera node" fun
    | .camera c => some fun s => ((), .camera { c with fov, aspect, near, far }, s)
    | _ => none

def reloadShader (e : Editor) (shader : Int32) : Outcome Unit :=
  match e.scene.services.shaders.reload shader with
  | .error err => (.error (.asset err), e)
  | .ok l =>
    let e := e.withServices { e.scene.services with shaders := l }
    (.ok (), (e.withGraph (e.graph.pushEvent (.shaderUpdated shader))).drain)

end Editor

end DrawGraph
