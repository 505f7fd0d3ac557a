import DrawGraph.Table
import DrawGraph.Graph.Edge

/-!
# The graph

Nodes and edges live in tables under ids from one counter that only grows, so no id is given
out twice; the greatest id is never given out. Beside each node stand the number of its outgoing
edges and the list of their targets in the order in which the edges were made. Links made and
cut are recorded in an outbox, oldest first.
-/

namespace DrawGraph

inductive GraphError
  | nodeNotFound (id : Id)
  | edgeNotFound (id : Id)
  | duplicateId (id : Id)
  | idSpaceExhausted
deriving DecidableEq, Repr

def GraphError.message : GraphError → String
  | nodeNotFound id => s!"Node not found: {id}"
  | edgeNotFound id => s!"Edge not found: {id}"
  | duplicateId id => s!"Id already in use: {id}"
  | idSpaceExhausted => "Id space exhausted"

structure Graph where
  nextId : Id := 0
  nodes : Table Id Node := .empty
  degrees : Table Id Nat := .empty
  targets : Table Id (List Id) := .empty
  edges : Table Id Edge := .empty
  outbox : List Event := []

namespace Graph

def empty : Graph := {}

instance : Inhabited Graph := ⟨empty⟩

/-- The greatest id, which is never given out. -/
def lastId : Id := 0xFFFFFFFF

def node? (g : Graph) (id : Id) : Option Node := g.nodes.get? id

def edge? (g : Graph) (id : Id) : Option Edge := g.edges.get? id

def hasNode (g : Graph) (id : Id) : Bool := g.nodes.contains id

def hasEdge (g : Graph) (id : Id) : Bool := g.edges.contains id

/-- The targets of the edges that leave a node, as those were made. -/
def neighbors (g : Graph) (id : Id) : List Id := (g.targets.get? id).getD []

def outDegree (g : Graph) (id : Id) : Nat := (g.degrees.get? id).getD 0

def edgeList (g : Graph) : List Edge := g.edges.elems.toList

def edgesFrom (g : Graph) (id : Id) : List Edge := g.edgeList.filter (·.source == id)

def edgesTo (g : Graph) (id : Id) : List Edge := g.edgeList.filter (·.target == id)

/-- Put a node without edges into the tables. -/
def place (g : Graph) (id : Id) (n : Node) : Graph :=
  { g with
    nodes := (g.nodes.insert id n).1
    degrees := (g.degrees.insert id 0).1
    targets := (g.targets.insert id []).1 }

def attach (g : Graph) (e : Edge) : Graph :=
  { g with
    edges := (g.edges.insert e.id e).1
    targets := g.targets.modify e.source (· ++ [e.target])
    degrees := g.degrees.modify e.source (· + 1) }

/-- The next id, and the graph that will not give it out again. -/
def allocate (g : Graph) : Except GraphError (Id × Graph) :=
  if g.nextId = lastId then .error .idSpaceExhausted
  else .ok (g.nextId, { g with nextId := g.nextId + 1 })

/-- Make room in the counter for an id given out before. -/
def reserve (g : Graph) (next : Id) : Graph :=
  { g with nextId := max g.nextId next }

def pushEvent (g : Graph) (e : Event) : Graph := { g with outbox := g.outbox ++ [e] }

def takeEvent (g : Graph) : Option (Event × Graph) :=
  match g.outbox with
  | [] => none
  | e :: rest => some (e, { g with outbox := rest })

def addNode (g : Graph) (n : Node) : Except GraphError (Id × Graph) := do
  let (id, g) ← g.allocate
  return (id, g.place id n)

def addEdge (g : Graph) (source target : Id) (kind : EdgeKind) :
    Except GraphError (Id × Graph) := do
  if !g.hasNode source then throw (.nodeNotFound source)
  if !g.hasNode target then throw (.nodeNotFound target)
  let (id, g) ← g.allocate
  let g := g.attach ⟨id, source, target, kind⟩
  return (id, if kind = .external then g.pushEvent (.linkCreated source target) else g)

/-- Drop an edge. Of several targets alike in its source's list the first goes. -/
def eraseEdge (g : Graph) (id : Id) : Except GraphError (Edge × Graph) :=
  match g.edges.get? id with
  | none => .error (.edgeNotFound id)
  | some e =>
    let g :=
      { g with
        edges := g.edges.erase id
        degrees := g.degrees.modify e.source (· - 1)
        targets := g.targets.modify e.source (·.erase e.target) }
    .ok (e, if e.isExternal then g.pushEvent (.linkDeleted e.source e.target) else g)

def eraseEdges (g : Graph) : List Id → Except GraphError Graph
  | [] => .ok g
  | e :: es => do
    let (_, g) ← g.eraseEdge e
    g.eraseEdges es

/-- Drop a node, after every edge that touches it, in id order. -/
def eraseNode (g : Graph) (id : Id) : Except GraphError (Node × Graph) :=
  match g.nodes.get? id with
  | none => .error (.nodeNotFound id)
  | some n => do
    let g ← g.eraseEdges ((g.edgeList.filter (·.touches id)).map (·.id))
    return (n,
      { g with
        nodes := g.nodes.erase id
        degrees := g.degrees.erase id
        targets := g.targets.erase id })

def setValue (g : Graph) (id : Id) (x : Float32) : Except GraphError Graph :=
  if g.hasNode id then .ok { g with nodes := g.nodes.modify id fun n => { n with value := x } }
  else .error (.nodeNotFound id)

/-- Put a node back under an id given out before. -/
def restoreNode (g : Graph) (id : Id) (n : Node) : Except GraphError Graph :=
  if id = lastId then .error .idSpaceExhausted
  else if g.hasNode id then .error (.duplicateId id)
  else .ok ((g.place id n).reserve (id + 1))

/-- Put an edge back under an id given out before. That is no event. -/
def restoreEdge (g : Graph) (e : Edge) : Except GraphError Graph := do
  if !g.hasNode e.source then throw (.nodeNotFound e.source)
  if !g.hasNode e.target then throw (.nodeNotFound e.target)
  if e.id = lastId then throw .idSpaceExhausted
  if g.hasEdge e.id then throw (.duplicateId e.id)
  return (g.attach e).reserve (e.id + 1)

end Graph

end DrawGraph
