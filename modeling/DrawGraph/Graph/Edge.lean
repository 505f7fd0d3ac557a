import DrawGraph.Node

/-!
# Edges and events

An edge leads from a consumer to a producer. Internal edges hold a UI node together; external
ones are the links between UI nodes, and making or cutting one is an event.
-/

namespace DrawGraph

inductive EdgeKind
  | internal | external
deriving DecidableEq, Repr

namespace EdgeKind

def all : List EdgeKind := [internal, external]

def tag (k : EdgeKind) : Nat := all.idxOf k

def ofTag? (n : Nat) : Option EdgeKind := all[n]?

@[simp] theorem ofTag?_tag (k : EdgeKind) : ofTag? k.tag = some k := by cases k <;> rfl

end EdgeKind

structure Edge where
  id : Id
  source : Id
  target : Id
  kind : EdgeKind
deriving DecidableEq, Repr

namespace Edge

def isExternal (e : Edge) : Bool := e.kind == .external

def touches (e : Edge) (n : Id) : Bool := e.source == n || e.target == n

end Edge

inductive Event
  | linkCreated (source target : Id)
  | linkDeleted (source target : Id)
  | shaderUpdated (shader : Int32)
deriving DecidableEq, Repr

end DrawGraph
