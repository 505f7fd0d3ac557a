import DrawGraph.Service.Asset

/-!
# Draw calls and the renderer

A draw call names two shaders and a model and carries a color and the values of the shader's
variables. The renderer keeps the complete calls that it is given.
-/

namespace DrawGraph

structure Constant where
  name : String
  type : BindingType
  value : Value
deriving DecidableEq

structure DrawCall where
  vertexShader : Int32
  pixelShader : Int32
  model : Int32
  color : Vec3
  bindings : List Constant := []
deriving DecidableEq

namespace DrawCall

def isComplete (c : DrawCall) : Bool := c.vertexShader ≥ 0 && c.pixelShader ≥ 0 && c.model ≥ 0

def constants (c : DrawCall) : List Float32 := c.bindings.flatMap (·.value.components)

end DrawCall

structure Renderer where
  calls : List DrawCall := []
  refuses : Bool := false
deriving DecidableEq

def Renderer.render (r : Renderer) (c : DrawCall) : Except AssetError Renderer :=
  if r.refuses then .error (.rejected "no rendering")
  else if c.isComplete then .ok { r with calls := r.calls ++ [c] }
  else .error (.invalidIndex noIndex)

/-- What the editor works with: shader reflection, assets and the renderer. -/
structure Services where
  shaders : ShaderLibrary := {}
  assets : AssetStore := {}
  renderer : Renderer := {}
deriving DecidableEq

end DrawGraph
