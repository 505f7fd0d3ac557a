import DrawGraph.Service.Shader

/-!
# Models and textures

A declared path can be loaded as a model, as a texture or as both. Each use has its own indices,
given out in order, and a path that has one keeps it.
-/

namespace DrawGraph

inductive PrimitiveShape
  | cube | plane | sphere
deriving DecidableEq, Repr

namespace PrimitiveShape

def all : List PrimitiveShape := [cube, plane, sphere]

def tag (s : PrimitiveShape) : Nat := all.idxOf s

def ofTag? (n : Nat) : Option PrimitiveShape := all[n]?

@[simp] theorem ofTag?_tag (s : PrimitiveShape) : ofTag? s.tag = some s := by cases s <;> rfl

/-- The path under which the shape is a model. -/
def path : PrimitiveShape → String
  | cube => "primitive:cube"
  | plane => "primitive:plane"
  | sphere => "primitive:sphere"

end PrimitiveShape

structure AssetStore where
  declared : List String := []
  models : List String := []
  textures : List String := []
  refusesPrimitives : Bool := false
deriving DecidableEq, Repr

namespace AssetStore

def declare (a : AssetStore) (path : String) : AssetStore :=
  if path ∈ a.declared then a else { a with declared := a.declared ++ [path] }

/-- The index of a path in a list, or the one after the end when the path may be added. -/
def place (a : AssetStore) (loaded : List String) (path : String) :
    Except AssetError (Int32 × List String) :=
  match loaded.findIdx? (· = path) with
  | some i => .ok (.ofNat i, loaded)
  | none =>
    if path ∈ a.declared then .ok (.ofNat loaded.length, loaded ++ [path])
    else .error (.notFound path)

def loadModel (a : AssetStore) (path : String) : Except AssetError (Int32 × AssetStore) := do
  let (i, models) ← a.place a.models path
  return (i, { a with models := models })

def loadTexture (a : AssetStore) (path : String) : Except AssetError (Int32 × AssetStore) := do
  let (i, textures) ← a.place a.textures path
  return (i, { a with textures := textures })

/-- A primitive is a model that needs no declaration. -/
def loadPrimitive (a : AssetStore) (shape : PrimitiveShape) :
    Except AssetError (Int32 × AssetStore) :=
  if a.refusesPrimitives then .error (.rejected "no primitives")
  else (a.declare shape.path).loadModel shape.path

def model? (a : AssetStore) (i : Int32) : Option String := atIndex? a.models i

end AssetStore

end DrawGraph
