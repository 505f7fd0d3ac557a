import DrawGraph.Graph.Basic
import DrawGraph.UiNode.Record

/-!
# Documents

A document lists the graph, node by node and edge by edge in id order, and then the root and the
UI nodes. Reading puts every node and edge back under its id. A UI node is left out when its
record cannot be read, or its kind is unknown, or its ids do not fit the graph or are taken.
-/

namespace DrawGraph

inductive PersistError
  | unreadable
  | parse (e : ParseError)
  | graph (e : GraphError)
deriving DecidableEq, Repr

def PersistError.message : PersistError → String
  | unreadable => "I/O error"
  | parse e => e.message
  | graph e => "Invalid graph: " ++ e.message

structure Document where
  graph : Graph
  root : Option Id
  nodes : List UiNode

namespace Document

def graphHeader : String := "#graph"

def uiHeader : String := "#ui_nodes"

def nodeWord : String := "n"

def edgeWord : String := "e"

def uiWord : String := "uin"

def nodeLine (id : Id) (n : Node) : Line :=
  [.word nodeWord, .id id, .unsigned (.ofNat n.type.tag), .unsigned (.ofNat n.direction.tag),
    .number n.value]

def edgeLine (e : Edge) : Line :=
  [.word edgeWord, .unsigned e.id, .id e.source, .id e.target, .unsigned (.ofNat e.kind.tag)]

def countLine (n : Nat) : Line := [.unsigned (.ofNat n)]

def graphLines (g : Graph) : List Line :=
  [.word graphHeader] :: [.unsigned g.nextId] ::
    countLine g.nodes.size :: g.nodes.entries.map (fun (id, n) => nodeLine id n) ++
    countLine g.edges.size :: g.edgeList.map edgeLine

def uiLines (values : ValueStore) (n : UiNode) : List Line :=
  let (first, more) := n.record values
  (.word uiWord :: .unsigned (.ofNat n.kind.tag) :: first) :: more

def lines (d : Document) (values : ValueStore) : List Line :=
  graphLines d.graph ++
    [.word uiHeader] :: [.optionalId d.root] ::
      countLine d.nodes.length :: d.nodes.flatMap (uiLines values)

def render (d : Document) (values : ValueStore) : String := Line.renderAll (d.lines values)

/-- Reading what may turn out to be no graph. -/
abbrev Loading (α : Type) := Attempt PersistError Reader α

def parsing {α : Type} (x : Reading α) : Loading α :=
  x.zoom (fun r => r) (fun r _ => r) .parse

def accept {α : Type} (r : Except GraphError α) : Loading α :=
  match r with
  | .ok a => return a
  | .error e => throw (.graph e)

open Reading

def readNode : Reading (Id × Node) := do
  nextLine
  keyword nodeWord
  let id ← ident
  let type ← tagged "node type" NodeType.ofTag?
  let direction ← tagged "direction" Direction.ofTag?
  let value ← number
  return (id, { type, direction, value })

def readEdge : Reading Edge := do
  nextLine
  keyword edgeWord
  let id ← unsigned
  let source ← ident
  let target ← ident
  let kind ← tagged "edge kind" EdgeKind.ofTag?
  return { id, source, target, kind }

def readNodes (g : Graph) : Nat → Loading Graph
  | 0 => return g
  | n + 1 => do
    let (id, node) ← parsing readNode
    let g ← accept (g.restoreNode id node)
    readNodes g n

def readEdges (g : Graph) : Nat → Loading Graph
  | 0 => return g
  | n + 1 => do
    let e ← parsing readEdge
    let g ← accept (g.restoreEdge e)
    readEdges g n

def readCount : Reading Nat := do
  nextLine
  count

def readHeader : Reading Id := do
  nextLine
  keyword graphHeader
  nextLine
  unsigned

def readGraph : Loading Graph := do
  let next ← parsing readHeader
  let g ← readNodes .empty (← parsing readCount)
  let g ← readEdges g (← parsing readCount)
  return g.reserve next

def readRoot : Reading (Option Id) := do
  nextLine
  keyword uiHeader
  nextLine
  optionalId

/-- Whether the identity is a node that is no pin, and every pin is one. -/
def resolves (g : Graph) (n : UiNode) : Bool :=
  (g.node? n.id).any (fun m => !m.direction.isPin) &&
    n.pins.all fun pin => (g.node? pin).any fun m => m.direction.isPin

/-- Read the record that starts on the next line; a record that cannot be read is passed over. -/
def readUiNode : Reading (Option UiNode) := do
  nextLine
  keyword uiWord
  let tag ← unsigned
  let pass := modify fun r : Reader => r.skipUntil uiWord.toList
  match UiNodeKind.ofTag? tag.toNat with
  | none =>
    pass
    return none
  | some kind =>
    try return some (← UiNode.read kind)
    catch _ =>
      pass
      return none

/-- Read up to `n` records; `nodes` are those read before. -/
def readUiNodes (g : Graph) (nodes : List UiNode) : Nat → Reading (List UiNode)
  | 0 => return nodes
  | n + 1 => do
    if (← get).atEnd then return nodes
    match ← readUiNode with
    | none => readUiNodes g nodes n
    | some node =>
      if resolves g node && !nodes.any (·.id == node.id) then
        readUiNodes g (nodes ++ [node]) n
      else readUiNodes g nodes n

def load : Loading Document := do
  let graph ← readGraph
  let root ← parsing readRoot
  let count ← parsing readCount
  let nodes ← parsing (readUiNodes graph [] count)
  return { graph, root := root.filter graph.hasNode, nodes }

def parse (text : String) : Except PersistError Document := (load.on (Reader.ofText text)).1

end Document

end DrawGraph
