import DrawGraph.Proofs.Attempt
import DrawGraph.Proofs.Graph.Ledger

/-!
# Calls that work in place

A call changes one table after another and may find only then that it has to fail. Here the calls of
a graph are written out in this way, and each turns out to be whole: it gives what the call gives,
or it fails and leaves the graph as it was. For a node that is erased with its edges this takes
tables that agree, and those of a graph that comes of calls do.
-/

namespace DrawGraph

namespace Graph

/-- Work on a graph in place. -/
abbrev Work (α : Type) := Attempt GraphError Graph α

namespace Work

def needNode (id : Id) : Work Unit := do
  if (← get).hasNode id then return () else throw (.nodeNotFound id)

def issueId : Work Id := do
  let id := (← get).nextId
  if id = lastId then throw .idSpaceExhausted
  else
    modify fun g => { g with nextId := id + 1 }
    return id

/-- Put up the lists of a node that is in the table of nodes already. -/
def putLists (id : Id) : Work Unit := do
  modify fun g => { g with degrees := (g.degrees.insert id 0).1 }
  modify fun g => { g with targets := (g.targets.insert id []).1 }

/-- Enter an edge that is in the table of edges already with its source. -/
def enter (e : Edge) : Work Unit := do
  modify fun g => { g with targets := g.targets.modify e.source (· ++ [e.target]) }
  modify fun g => { g with degrees := g.degrees.modify e.source (· + 1) }

def tell (e : Edge) (event : Event) : Work Unit :=
  if e.isExternal then modify (·.pushEvent event) else return ()

def addNode (n : Node) : Work Id := do
  let id ← issueId
  modify fun g => { g with nodes := (g.nodes.insert id n).1 }
  putLists id
  return id

def addEdge (source target : Id) (kind : EdgeKind) : Work Id := do
  needNode source
  needNode target
  let id ← issueId
  let e : Edge := ⟨id, source, target, kind⟩
  modify fun g => { g with edges := (g.edges.insert id e).1 }
  enter e
  tell e (.linkCreated source target)
  return id

def eraseEdge (id : Id) : Work Edge := do
  match (← get).edges.get? id with
  | none => throw (.edgeNotFound id)
  | some e =>
    modify fun g => { g with edges := g.edges.erase id }
    modify fun g => { g with degrees := g.degrees.modify e.source (· - 1) }
    modify fun g => { g with targets := g.targets.modify e.source (·.erase e.target) }
    tell e e.cutEvent
    return e

/-- Erase edges one after another. What is done before one fails stays done. -/
def eraseEdges : List Id → Work Unit
  | [] => return ()
  | id :: ids => do
    let _ ← eraseEdge id
    eraseEdges ids

def eraseNode (id : Id) : Work Node := do
  needNode id
  eraseEdges (((← get).edgeList.filter (·.touches id)).map (·.id))
  modify fun g => { g with degrees := g.degrees.erase id }
  modify fun g => { g with targets := g.targets.erase id }
  match (← get).nodes.get? id with
  | none => throw (.nodeNotFound id)
  | some n =>
    modify fun g => { g with nodes := g.nodes.erase id }
    return n

def setValue (id : Id) (x : Float32) : Work Unit := do
  needNode id
  modify fun g => { g with nodes := g.nodes.modify id fun n => { n with value := x } }

/-- The node is inserted before it is known whether its id is taken. -/
def restoreNode (id : Id) (n : Node) : Work Unit := do
  if id = lastId then throw .idSpaceExhausted
  else
    let (nodes, new) := (← get).nodes.insert id n
    modify fun g => { g with nodes := nodes }
    if new then
      putLists id
      modify (·.reserve (id + 1))
    else throw (.duplicateId id)

/-- The edge is inserted before it is known whether its id is taken. -/
def restoreEdge (e : Edge) : Work Unit := do
  needNode e.source
  needNode e.target
  if e.id = lastId then throw .idSpaceExhausted
  else
    let (edges, new) := (← get).edges.insert e.id e
    modify fun g => { g with edges := edges }
    if new then
      enter e
      modify (·.reserve (e.id + 1))
    else throw (.duplicateId e.id)

def edit : Edit → Work Unit
  | .addNode n => do let _ ← addNode n
  | .addEdge source target kind => do let _ ← addEdge source target kind
  | .eraseNode id => do let _ ← eraseNode id
  | .eraseEdge id => do let _ ← eraseEdge id
  | .restoreNode id n => restoreNode id n
  | .restoreEdge e => restoreEdge e
  | .setValue id x => setValue id x
  | .reserve next => modify (·.reserve next)
  | .pushEvent e => modify (·.pushEvent e)
  | .takeEvent => modify fun g => g.takeEvent.elim g Prod.snd
  | .clear => set Graph.empty

/-! ## Calls are whole -/

open Attempt

variable {g : Graph}

theorem needNode_on {id : Id} (h : g.hasNode id = true) : (needNode id).on g = (.ok (), g) := by
  rw [needNode, on_bind_of_ok (on_get g), if_pos h]
  rfl

theorem needNode_on_of_missing {id : Id} (h : g.hasNode id = false) :
    (needNode id).on g = (.error (.nodeNotFound id), g) := by
  rw [needNode, on_bind_of_ok (on_get g), h]
  rfl

theorem tell_on (e : Edge) (event : Event) (g : Graph) :
    (tell e event).on g = (.ok (), if e.isExternal then g.pushEvent event else g) := by
  rw [tell]
  split <;> rfl

theorem allocate_of_last (h : g.nextId = lastId) : g.allocate = .error .idSpaceExhausted :=
  if_pos h

theorem allocate_of_ne_last (h : g.nextId ≠ lastId) :
    g.allocate = .ok (g.nextId, { g with nextId := g.nextId + 1 }) :=
  if_neg h

theorem issueId_eq : issueId = whole allocate := by
  refine ext_on fun g => ?_
  rw [issueId, on_bind_of_ok (on_get g)]
  by_cases hlast : g.nextId = lastId
  · rw [if_pos hlast, whole_on_of_error (allocate_of_last hlast)]
    rfl
  · rw [if_neg hlast, whole_on_of_ok (allocate_of_ne_last hlast)]
    rfl

theorem addNode_eq (n : Node) : addNode n = whole (·.addNode n) := by
  refine ext_on fun g => ?_
  rw [addNode, issueId_eq]
  cases h : g.allocate with
  | error e =>
      have hadd : g.addNode n = .error e := by rw [Graph.addNode, h]; rfl
      rw [on_bind_of_error (whole_on_of_error h), whole_on_of_error hadd]
  | ok p =>
      have hadd : g.addNode n = .ok (p.1, p.2.place p.1 n) := by rw [Graph.addNode, h]; rfl
      rw [on_bind_of_ok (whole_on_of_ok h), whole_on_of_ok hadd]
      rfl

theorem addEdge_eq (source target : Id) (kind : EdgeKind) :
    addEdge source target kind = whole (·.addEdge source target kind) := by
  refine ext_on fun g => ?_
  rw [addEdge]
  cases hs : g.hasNode source with
  | false =>
      have hadd : g.addEdge source target kind = .error (.nodeNotFound source) := by
        rw [Graph.addEdge, hs]; rfl
      rw [on_bind_of_error (needNode_on_of_missing hs), whole_on_of_error hadd]
  | true =>
  rw [on_bind_of_ok (needNode_on hs)]
  cases ht : g.hasNode target with
  | false =>
      have hadd : g.addEdge source target kind = .error (.nodeNotFound target) := by
        rw [Graph.addEdge, hs, ht]; rfl
      rw [on_bind_of_error (needNode_on_of_missing ht), whole_on_of_error hadd]
  | true =>
  rw [on_bind_of_ok (needNode_on ht), issueId_eq]
  cases h : g.allocate with
  | error e =>
      have hadd : g.addEdge source target kind = .error e := by
        rw [Graph.addEdge, hs, ht, h]; rfl
      rw [on_bind_of_error (whole_on_of_error h), whole_on_of_error hadd]
  | ok p =>
      have hkind : (⟨p.1, source, target, kind⟩ : Edge).isExternal = true ↔ kind = .external := by
        simp [Edge.isExternal]
      have hadd : g.addEdge source target kind = .ok (p.1,
          if (⟨p.1, source, target, kind⟩ : Edge).isExternal then
            (p.2.attach ⟨p.1, source, target, kind⟩).pushEvent (.linkCreated source target)
          else p.2.attach ⟨p.1, source, target, kind⟩) := by
        rw [Graph.addEdge, hs, ht, h]
        simp only [hkind]
        rfl
      rw [on_bind_of_ok (whole_on_of_ok h), whole_on_of_ok hadd]
      exact on_bind_of_ok (tell_on _ _ (p.2.attach ⟨p.1, source, target, kind⟩))

theorem eraseEdge_eq (id : Id) : eraseEdge id = whole (·.eraseEdge id) := by
  refine ext_on fun g => ?_
  rw [eraseEdge, on_bind_of_ok (on_get g)]
  cases he : g.edges.get? id with
  | none =>
      have herase : g.eraseEdge id = .error (.edgeNotFound id) := by rw [Graph.eraseEdge, he]
      rw [whole_on_of_error herase]
      rfl
  | some e =>
      have herase : g.eraseEdge id = .ok (e, if e.isExternal then
          ({ g with
            edges := g.edges.erase id
            degrees := g.degrees.modify e.source (· - 1)
            targets := g.targets.modify e.source (·.erase e.target) } : Graph).pushEvent e.cutEvent
          else
          { g with
            edges := g.edges.erase id
            degrees := g.degrees.modify e.source (· - 1)
            targets := g.targets.modify e.source (·.erase e.target) }) := by
        rw [Graph.eraseEdge, he]
        rfl
      rw [whole_on_of_ok herase]
      exact on_bind_of_ok (tell_on e e.cutEvent _)

theorem setValue_eq (id : Id) (x : Float32) :
    setValue id x = whole fun g => (g.setValue id x).map ((), ·) := by
  refine ext_on fun g => ?_
  rw [setValue]
  cases h : g.hasNode id with
  | false =>
      have hset : g.setValue id x = .error (.nodeNotFound id) := if_neg (Bool.eq_false_iff.1 h)
      rw [on_bind_of_error (needNode_on_of_missing h), whole_on_of_error (by rw [hset]; rfl)]
  | true =>
      rw [on_bind_of_ok (needNode_on h), whole_on_of_ok (by rw [Graph.setValue, if_pos h]; rfl)]
      rfl

theorem restoreNode_eq (id : Id) (n : Node) :
    restoreNode id n = whole fun g => (g.restoreNode id n).map ((), ·) := by
  refine ext_on fun g => ?_
  rw [restoreNode]
  by_cases hlast : id = lastId
  · rw [if_pos hlast, whole_on_of_error (by rw [Graph.restoreNode, if_pos hlast]; rfl)]
    rfl
  rw [if_neg hlast, on_bind_of_ok (on_get g)]
  cases h : g.hasNode id with
  | true =>
      -- the table keeps the node that it has
      have hkept := g.nodes.insert_of_holds h n
      rw [hkept, whole_on_of_error (by rw [Graph.restoreNode, if_neg hlast, if_pos h]; rfl)]
      rfl
  | false =>
      have hnew : g.nodes.insert id n = ((g.nodes.insert id n).1, true) :=
        Prod.ext rfl ((g.nodes.insert_snd id n).trans (congrArg not h))
      have hok : g.restoreNode id n = .ok ((g.place id n).reserve (id + 1)) := by
        rw [Graph.restoreNode, if_neg hlast, if_neg (Bool.eq_false_iff.1 h)]
      rw [whole_on_of_ok (by rw [hok]; rfl), hnew]
      rfl

theorem restoreEdge_eq (e : Edge) :
    restoreEdge e = whole fun g => (g.restoreEdge e).map ((), ·) := by
  refine ext_on fun g => ?_
  rw [restoreEdge]
  cases hs : g.hasNode e.source with
  | false =>
      have hno : g.restoreEdge e = .error (.nodeNotFound e.source) := by
        rw [Graph.restoreEdge, hs]; rfl
      rw [on_bind_of_error (needNode_on_of_missing hs), whole_on_of_error (by rw [hno]; rfl)]
  | true =>
  rw [on_bind_of_ok (needNode_on hs)]
  cases ht : g.hasNode e.target with
  | false =>
      have hno : g.restoreEdge e = .error (.nodeNotFound e.target) := by
        rw [Graph.restoreEdge, hs, ht]; rfl
      rw [on_bind_of_error (needNode_on_of_missing ht), whole_on_of_error (by rw [hno]; rfl)]
  | true =>
  rw [on_bind_of_ok (needNode_on ht)]
  by_cases hlast : e.id = lastId
  · have hno : g.restoreEdge e = .error .idSpaceExhausted := by
      rw [Graph.restoreEdge, hs, ht, if_pos hlast]; rfl
    rw [if_pos hlast, whole_on_of_error (by rw [hno]; rfl)]
    rfl
  rw [if_neg hlast, on_bind_of_ok (on_get g)]
  cases h : g.hasEdge e.id with
  | true =>
      have hno : g.restoreEdge e = .error (.duplicateId e.id) := by
        rw [Graph.restoreEdge, hs, ht, if_neg hlast, h]; rfl
      rw [g.edges.insert_of_holds h e, whole_on_of_error (by rw [hno]; rfl)]
      rfl
  | false =>
      have hnew : g.edges.insert e.id e = ((g.edges.insert e.id e).1, true) :=
        Prod.ext rfl ((g.edges.insert_snd e.id e).trans (congrArg not h))
      have hok := restoreEdge_eq_ok.2 ⟨⟨hs, ht⟩, hlast, h, rfl⟩
      rw [whole_on_of_ok (by rw [hok]; rfl), hnew]
      rfl

theorem eraseEdges_on {g g' : Graph} {ids : List Id} (h : g.eraseEdges ids = .ok g') :
    (eraseEdges ids).on g = (.ok (), g') := by
  induction ids generalizing g with
  | nil =>
      cases h
      rfl
  | cons id ids ih =>
      rw [eraseEdges, eraseEdge_eq]
      rw [Graph.eraseEdges] at h
      cases he : g.eraseEdge id with
      | error e => rw [he] at h; cases h
      | ok p =>
          rw [he] at h
          rw [on_bind_of_ok (whole_on_of_ok he)]
          exact ih h

/-- Where the tables agree, none of the edges that touch the node fails to be erased. -/
theorem eraseNode_on (hc : g.Consistent) (id : Id) :
    (eraseNode id).on g = (whole (·.eraseNode id)).on g := by
  rw [eraseNode]
  cases hn : g.hasNode id with
  | false =>
      have hno := hc.eraseNode_eq_error_iff.2 ⟨hn, rfl⟩
      rw [on_bind_of_error (needNode_on_of_missing hn), whole_on_of_error hno]
  | true =>
      obtain ⟨n, hnode⟩ := Option.isSome_iff_exists.1 ((hasNode_eq g id).symm.trans hn)
      obtain ⟨_, g₁, hedges, h₁, _⟩ := hc.eraseTouching id
      have hstill : g₁.nodes.get? id = some n := (h₁.node? id).trans hnode
      rw [on_bind_of_ok (needNode_on hn), on_bind_of_ok (on_get g),
        on_bind_of_ok (eraseEdges_on hedges), on_bind_of_ok (on_modify _ _),
        on_bind_of_ok (on_modify _ _), on_bind_of_ok (on_get _), hstill,
        whole_on_of_ok (eraseNode_of_edges hnode hedges)]
      rfl

/-- A call of which only the graph is kept that it leaves. -/
theorem dropping_on {α : Type} {x : Work α} {f : Graph → Except GraphError (α × Graph)}
    (h : x.on g = (whole f).on g) :
    (do let _ ← x : Work Unit).on g = (whole fun g => ((f g).map Prod.snd).map ((), ·)).on g := by
  cases hf : f g with
  | error e =>
      rw [whole_on_of_error hf] at h
      rw [on_bind_of_error h, whole_on_of_error (by rw [hf]; rfl)]
  | ok p =>
      rw [whole_on_of_ok hf] at h
      rw [on_bind_of_ok h, whole_on_of_ok (by rw [hf]; rfl)]
      rfl

/-- A call does in place what an edit is said to do. -/
theorem edit_on (hc : g.Consistent) (c : Edit) :
    (edit c).on g = (whole fun g => (g.attempt c).map ((), ·)).on g := by
  cases c with
  | addNode n => exact dropping_on (congrFun (addNode_eq n) g)
  | addEdge source target kind => exact dropping_on (congrFun (addEdge_eq source target kind) g)
  | eraseNode id => exact dropping_on (eraseNode_on hc id)
  | eraseEdge id => exact dropping_on (congrFun (eraseEdge_eq id) g)
  | restoreNode id n => exact congrFun (restoreNode_eq id n) g
  | restoreEdge e => exact congrFun (restoreEdge_eq e) g
  | setValue id x => exact congrFun (setValue_eq id x) g
  | reserve | pushEvent | takeEvent | clear => rfl

end Work

/-- A graph that comes of calls made in place, whether they failed or not, and of records of nodes
rewritten. -/
inductive Reachable : Graph → Prop
  | empty : Reachable .empty
  | edit {g : Graph} (h : g.Reachable) (c : Edit) : ((Work.edit c).on g).2.Reachable
  | rewrite {g : Graph} (h : g.Reachable) (id : Id) (f : Node → Node) :
      ({ g with nodes := g.nodes.modify id f } : Graph).Reachable

variable {g : Graph}

theorem Consistent.edit_on_snd (hc : g.Consistent) (c : Edit) :
    ((Work.edit c).on g).2 = g.edit c := by
  rw [Work.edit_on hc]
  cases h : g.attempt c with
  | error e => rw [edit_of_error h, Attempt.whole_on_of_error (by rw [h]; rfl)]
  | ok g' => rw [edit_of_ok h, Attempt.whole_on_of_ok (by rw [h]; rfl)]

theorem Reachable.consistent (h : g.Reachable) : g.Consistent := by
  induction h with
  | empty => exact .empty
  | edit _ c hc =>
      rw [hc.edit_on_snd]
      exact hc.edit c
  | rewrite _ id f hc => exact hc.modify id f

theorem Reachable.edits (h : g.Reachable) (cs : List Edit) : (g.edits cs).Reachable := by
  induction cs generalizing g with
  | nil => exact h
  | cons c cs ih =>
      refine ih (g := g.edit c) ?_
      rw [← h.consistent.edit_on_snd]
      exact h.edit c

/-- `g'` is `g` without a node and the edges that touch it, table by table. The events tell of the
links among these edges, one of each, in the order of their ids. -/
structure Forgets (g : Graph) (id : Id) (g' : Graph) : Prop where
  node? : ∀ j, g'.node? j = if j = id then none else g.node? j
  edge? : ∀ j, g'.edge? j = (g.edge? j).filter fun e => !e.touches id
  targets : ∀ j, g'.targets.get? j =
    if j = id then none else (g.targets.get? j).map fun ts => ts.filter (· ≠ id)
  degrees : ∀ j, g'.degrees.get? j = (g'.targets.get? j).map List.length
  nextId : g'.nextId = g.nextId
  outbox : g'.outbox = g.outbox ++
    ((g.edgeList.filter (·.touches id)).filter (·.isExternal)).map Edge.cutEvent

theorem Consistent.degrees_eq (hc : g.Consistent) (id : Id) :
    g.degrees.get? id = (g.targets.get? id).map List.length := by
  rw [hc.degrees_get?, hc.targets_get?, hc.count]
  split <;> rfl

theorem Consistent.forgets (hc : g.Consistent) {id : Id} {n : Node} (hn : g.node? id = some n) :
    ∃ g', g.eraseNode id = .ok (n, g') ∧ g.Forgets id g' := by
  obtain ⟨_, g₁, hedges, _, _⟩ := hc.eraseTouching id
  have hok := eraseNode_of_edges hn hedges
  have herase := hc.erasesNode hok
  refine ⟨g₁.displace id, hok, herase.node?, herase.edge?, fun j => ?_,
    herase.consistent.degrees_eq, herase.nextId, (hc.drops_eraseNode hok).outbox⟩
  have hnode : (g₁.displace id).hasNode j = if j = id then false else g.hasNode j := by
    rw [hasNode_eq, herase.node?, hasNode_eq]
    split <;> rfl
  rw [herase.consistent.targets_get?, hc.targets_get?, hnode, herase.neighbors]
  split
  · rfl
  · split <;> rfl

/-- A node that there is is erased, with the edges that touch it and nothing else. Whatever call
fails, and however far it got, the graph is what it was. -/
theorem Reachable.no_call_half_done (h : g.Reachable) :
    (∀ id n, g.node? id = some n →
      ∃ g', (Work.eraseNode id).on g = (.ok n, g') ∧ g.Forgets id g') ∧
    ∀ c e g', (Work.edit c).on g = (.error e, g') → g' = g := by
  have hc := h.consistent
  constructor
  · intro id n hn
    obtain ⟨g', hok, hforgets⟩ := hc.forgets hn
    refine ⟨g', ?_, hforgets⟩
    rw [Work.eraseNode_on hc, Attempt.whole_on_of_ok hok]
  · intro c e g' hfails
    rw [Work.edit_on hc] at hfails
    exact Attempt.eq_of_whole_on_error hfails

/-- With node 1 go two links alike, a loop and a link back. A node put back under id 0 is inserted
and refused. -/
theorem no_call_half_done_tangled :
    let g := empty.edits
      [.addNode ⟨.add, .none, 0⟩, .addNode ⟨.float, .output, 0⟩, .addNode ⟨.float, .input, 0⟩,
        .addEdge 0 1 .external, .addEdge 0 2 .internal, .addEdge 0 1 .external,
        .addEdge 1 1 .internal, .addEdge 1 0 .external]
    g.Reachable ∧ g.node? 1 = some ⟨.float, .output, 0⟩ ∧
      (∃ g', (Work.eraseNode 1).on g = (.ok ⟨.float, .output, 0⟩, g') ∧ g.Forgets 1 g') ∧
      let refused := (Work.edit (.restoreNode 0 ⟨.float, .output, 0⟩)).on g
      refused.1 = .error (.duplicateId 0) ∧ refused.2 = g := by
  intro g
  have hreach : g.Reachable := Reachable.empty.edits _
  have hnode : g.node? 1 = some ⟨.float, .output, 0⟩ := by decide +kernel
  have htaken : ((Work.edit (.restoreNode 0 ⟨.float, .output, 0⟩)).on g).1 =
      .error (.duplicateId 0) := by decide +kernel
  obtain ⟨herase, hkeep⟩ := hreach.no_call_half_done
  exact ⟨hreach, hnode, herase 1 _ hnode, htaken, hkeep _ _ _ (Prod.ext htaken rfl)⟩

end Graph

end DrawGraph
