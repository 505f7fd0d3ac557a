import DrawGraph.Value.Basic

/-!
# Shader reflection

The library of shaders knows each by its index and answers which variables it declares. Index
zero is a shader without any.
-/

namespace DrawGraph

inductive AssetError
  | notFound (path : String)
  | invalidIndex (index : Int32)
  | rejected (reason : String)
deriving DecidableEq, Repr

def AssetError.message : AssetError → String
  | notFound path => "Asset not found: " ++ path
  | invalidIndex index => s!"Invalid asset index: {index}"
  | rejected reason => reason

/-- The entry of a list at an index of which the negative ones name nothing. -/
def atIndex? {α : Type} (xs : List α) (i : Int32) : Option α :=
  if i < 0 then none else xs[i.toInt.toNat]?

structure ShaderVar where
  name : String
  typeName : String
deriving DecidableEq, Repr

structure Shader where
  path : String
  vars : List ShaderVar := []
  revision : Nat := 0
deriving DecidableEq, Repr

/-- The shaders in index order, and the index of the one used when there is no other. -/
structure ShaderLibrary where
  shaders : List Shader := [⟨"default", [], 0⟩]
  fallback : Int32 := 0
deriving DecidableEq, Repr

namespace ShaderLibrary

def indexOf? (l : ShaderLibrary) (path : String) : Option Nat :=
  l.shaders.findIdx? (·.path = path)

/-- Declare a shader, in the place of one with the same path if there is one. -/
def declare (l : ShaderLibrary) (path : String) (vars : List ShaderVar) : Int32 × ShaderLibrary :=
  match l.indexOf? path with
  | some i =>
    (.ofNat i, { l with shaders := l.shaders.modify i fun s => { s with vars := vars } })
  | none =>
    (.ofNat l.shaders.length, { l with shaders := l.shaders ++ [{ path := path, vars := vars }] })

def load (l : ShaderLibrary) (path : String) : Except AssetError Int32 :=
  match l.indexOf? path with
  | some i => .ok (.ofNat i)
  | none => .error (.notFound path)

def vars (l : ShaderLibrary) (i : Int32) : Except AssetError (List ShaderVar) :=
  match atIndex? l.shaders i with
  | some s => .ok s.vars
  | none => .error (.invalidIndex i)

/-- Read a shader again, which counts up its revision. -/
def reload (l : ShaderLibrary) (i : Int32) : Except AssetError ShaderLibrary :=
  match atIndex? l.shaders i with
  | some _ =>
    .ok { l with
      shaders := l.shaders.modify i.toInt.toNat fun s => { s with revision := s.revision + 1 } }
  | none => .error (.invalidIndex i)

def revision? (l : ShaderLibrary) (i : Int32) : Option Nat :=
  (atIndex? l.shaders i).map (·.revision)

end ShaderLibrary

end DrawGraph
