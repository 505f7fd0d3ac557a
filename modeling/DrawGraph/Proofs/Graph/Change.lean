import DrawGraph.Proofs.Graph.Consistency

/-!
# What changing the graph changes

Each operation on a consistent graph leaves a consistent graph, and is described by what it does to
the views: which nodes and edges there are, the targets of each node, the counter and the outbox.
-/

namespace DrawGraph

namespace Graph

theorem lt_add_one_of_le {a n : Id} (hn : n ≠ lastId) (h : a ≤ n) : a < n + 1 := by
  have hlast : n.toNat ≠ lastId.toNat := fun he => hn (UInt32.toNat_inj.1 he)
  have hmax : lastId.toNat = 4294967295 := rfl
  have hlt := n.toNat_lt
  rw [UInt32.lt_iff_toNat_lt, UInt32.toNat_add]
  rw [UInt32.le_iff_toNat_le] at h
  simp only [UInt32.reduceToNat]
  omega

theorem toNat_succ {id n n' : Id} (hid : id = n) (h : id < n') (hn : n' = n + 1) :
    n'.toNat = n.toNat + 1 := by
  subst hid hn
  rw [UInt32.lt_iff_toNat_lt, UInt32.toNat_add] at h
  rw [UInt32.toNat_add]
  simp only [UInt32.reduceToNat] at h ⊢
  omega

variable {g g' : Graph} {id : Id}

section Views

@[simp] theorem node?_place (g : Graph) (id : Id) (n : Node) (j : Id) :
    (g.place id n).node? j = if j = id then some ((g.node? id).getD n) else g.node? j :=
  g.nodes.get?_insert id n j

@[simp] theorem neighbors_place (g : Graph) (id : Id) (n : Node) (j : Id) :
    (g.place id n).neighbors j = g.neighbors j := by
  simp only [neighbors, place, Table.get?_insert]
  split
  · next h => rw [h, Option.getD_some]
  · rfl

@[simp] theorem outDegree_place (g : Graph) (id : Id) (n : Node) (j : Id) :
    (g.place id n).outDegree j = g.outDegree j := by
  simp only [outDegree, place, Table.get?_insert]
  split
  · next h => rw [h, Option.getD_some]
  · rfl

theorem neighbors_modify (g : Graph) (id : Id) (f : List Id → List Id) (hf : f [] = [] ∨
    (g.targets.get? id).isSome) (j : Id) :
    ((g.targets.modify id f).get? j).getD [] =
      if j = id then f (g.neighbors id) else g.neighbors j := by
  rw [Table.get?_modify]
  split
  · cases h : g.targets.get? id with
    | none => simp_all [neighbors]
    | some ts => simp [neighbors, h]
  · rfl

theorem outDegree_modify (g : Graph) (id : Id) (f : Nat → Nat) (hf : f 0 = 0 ∨
    (g.degrees.get? id).isSome) (j : Id) :
    ((g.degrees.modify id f).get? j).getD 0 =
      if j = id then f (g.outDegree id) else g.outDegree j := by
  rw [Table.get?_modify]
  split
  · cases h : g.degrees.get? id with
    | none => simp_all [outDegree]
    | some d => simp [outDegree, h]
  · rfl

end Views

/-! ## The record of a node -/

theorem node?_modify (g : Graph) (id : Id) (f : Node → Node) (j : Id) :
    ({ g with nodes := g.nodes.modify id f } : Graph).node? j =
      (g.node? j).map fun n => if j = id then f n else n := by
  rw [node?, Table.get?_modify]
  split
  · next hj =>
    subst hj
    rfl
  · exact (Option.map_id' (x := g.node? j)).symm

theorem hasNode_modify (g : Graph) (id : Id) (f : Node → Node) (j : Id) :
    ({ g with nodes := g.nodes.modify id f } : Graph).hasNode j = g.hasNode j := by
  rw [hasNode_eq, node?_modify, Option.isSome_map, hasNode_eq]

theorem Consistent.modify (hc : g.Consistent) (id : Id) (f : Node → Node) :
    ({ g with nodes := g.nodes.modify id f } : Graph).Consistent where
  degree j := (hc.degree j).trans (hasNode_modify g id f j).symm
  targets j := (hc.targets j).trans (hasNode_modify g id f j).symm
  count := hc.count
  perm := hc.perm
  own := hc.own
  ends j e he := by
    rw [hasNode_modify, hasNode_modify]
    exact hc.ends j e he
  node_lt j hj := hc.node_lt j (hasNode_modify g id f j ▸ hj)
  edge_lt := hc.edge_lt

theorem Consistent.setNumber (hc : g.Consistent) (id : Id) (x : Float32) :
    ({ g with nodes := g.nodes.modify id fun n => { n with value := x } } : Graph).Consistent :=
  hc.modify id _

/-- `g'` is `g` with one more node, without edges. -/
structure AddsNode (g : Graph) (n : Node) (id : Id) (g' : Graph) : Prop where
  consistent : g'.Consistent
  fresh : g.hasNode id = false
  node? : ∀ j, g'.node? j = if j = id then some n else g.node? j
  neighbors : ∀ j, g'.neighbors j = g.neighbors j
  edge? : ∀ j, g'.edge? j = g.edge? j
  id_eq : id = g.nextId
  nextId : g'.nextId = g.nextId + 1
  outbox : g'.outbox = g.outbox

/-- `g'` is `g` with one more edge, the last of its source. -/
structure AddsEdge (g : Graph) (e : Edge) (g' : Graph) : Prop where
  consistent : g'.Consistent
  fresh : g.hasEdge e.id = false
  node? : ∀ j, g'.node? j = g.node? j
  neighbors : ∀ j, g'.neighbors j =
    if j = e.source then g.neighbors j ++ [e.target] else g.neighbors j
  edge? : ∀ j, g'.edge? j = if j = e.id then some e else g.edge? j
  id_eq : e.id = g.nextId
  nextId : g'.nextId = g.nextId + 1
  outbox : g'.outbox =
    g.outbox ++ if e.kind = .external then [.linkCreated e.source e.target] else []

/-- `g'` is `g` without one edge. -/
structure ErasesEdge (g : Graph) (e : Edge) (g' : Graph) : Prop where
  consistent : g'.Consistent
  node? : ∀ j, g'.node? j = g.node? j
  neighbors : ∀ j, g'.neighbors j =
    if j = e.source then (g.neighbors j).erase e.target else g.neighbors j
  edge? : ∀ j, g'.edge? j = if j = e.id then none else g.edge? j
  nextId : g'.nextId = g.nextId
  outbox : g'.outbox =
    g.outbox ++ if e.kind = .external then [.linkDeleted e.source e.target] else []

/-- `g'` is `g` without one node and the edges that touch it. -/
structure ErasesNode (g : Graph) (id : Id) (g' : Graph) : Prop where
  consistent : g'.Consistent
  node? : ∀ j, g'.node? j = if j = id then none else g.node? j
  neighbors : ∀ j, g'.neighbors j = if j = id then [] else (g.neighbors j).filter (· ≠ id)
  edge? : ∀ j, g'.edge? j = (g.edge? j).filter fun e => !e.touches id
  nextId : g'.nextId = g.nextId
  /-- What is new in the outbox tells of a link that touched the node. -/
  outbox : ∀ event ∈ g'.outbox, event ∈ g.outbox ∨ ∃ i e, g.edge? i = some e ∧ e.touches id ∧
    e.kind = .external ∧ event = .linkDeleted e.source e.target

theorem AddsNode.hasNode {n : Node} (h : g.AddsNode n id g') (j : Id) :
    g'.hasNode j ↔ j = id ∨ g.hasNode j := by
  rw [hasNode_eq, h.node?, hasNode_eq]
  split <;> simp_all

/-- The counter moves past an id that is given out. -/
theorem AddsNode.lt_nextId {n : Node} (h : g.AddsNode n id g') : id < g'.nextId :=
  h.consistent.node_lt id ((h.hasNode id).2 (Or.inl rfl))

theorem AddsNode.nextId_le {n : Node} (h : g.AddsNode n id g') : g.nextId ≤ g'.nextId :=
  h.id_eq ▸ UInt32.le_of_lt h.lt_nextId

theorem AddsNode.toNat_nextId {n : Node} (h : g.AddsNode n id g') :
    g'.nextId.toNat = g.nextId.toNat + 1 :=
  toNat_succ h.id_eq h.lt_nextId h.nextId

theorem AddsEdge.lt_nextId {e : Edge} (h : g.AddsEdge e g') : e.id < g'.nextId := by
  refine h.consistent.edge_lt e.id ?_
  rw [hasEdge_eq, h.edge?, if_pos rfl]
  rfl

theorem AddsEdge.nextId_le {e : Edge} (h : g.AddsEdge e g') : g.nextId ≤ g'.nextId :=
  h.id_eq ▸ UInt32.le_of_lt h.lt_nextId

theorem AddsEdge.toNat_nextId {e : Edge} (h : g.AddsEdge e g') :
    g'.nextId.toNat = g.nextId.toNat + 1 :=
  toNat_succ h.id_eq h.lt_nextId h.nextId

theorem addNode_error {n : Node} {e : GraphError} (h : g.addNode n = .error e) :
    e = .idSpaceExhausted := by
  unfold addNode allocate at h
  split at h <;> cases h
  rfl

theorem nextId_of_addNode_error {n : Node} {e : GraphError} (h : g.addNode n = .error e) :
    g.nextId = lastId := by
  unfold addNode allocate at h
  split at h
  · next hlast => exact hlast
  · cases h

theorem addNode_eq_ok (hroom : g.nextId ≠ lastId) (n : Node) :
    ∃ id g', g.addNode n = .ok (id, g') := by
  cases h : g.addNode n with
  | ok r => exact ⟨r.1, r.2, rfl⟩
  | error err => exact absurd (nextId_of_addNode_error h) hroom

theorem hasNode_place (g : Graph) (id : Id) (n : Node) (j : Id) :
    (g.place id n).hasNode j ↔ j = id ∨ g.hasNode j := by
  rw [hasNode_eq, node?_place, hasNode_eq]
  split <;> simp_all

theorem Consistent.place (hc : g.Consistent) (n : Node) {next : Id} (hnext : g.nextId ≤ next)
    (hid : id < next) : (({ g with nextId := next } : Graph).place id n).Consistent := by
  refine { degree := ?_, targets := ?_, count := ?_, perm := ?_, own := hc.own, ends := ?_,
           node_lt := ?_, edge_lt := fun j hj => UInt32.lt_of_lt_of_le (hc.edge_lt j hj) hnext }
  · intro j
    have hd := hc.degree j
    rw [hasNode_eq] at hd ⊢
    rw [node?_place]
    simp only [Graph.place, Table.get?_insert]
    split
    · rfl
    · exact hd
  · intro j
    have ht := hc.targets j
    rw [hasNode_eq] at ht ⊢
    rw [node?_place]
    simp only [Graph.place, Table.get?_insert]
    split
    · rfl
    · exact ht
  · intro j
    rw [outDegree_place, neighbors_place]
    exact hc.count j
  · intro j
    rw [neighbors_place]
    exact hc.perm j
  · intro j e he
    rw [hasNode_place, hasNode_place]
    exact (hc.ends j e he).imp Or.inr Or.inr
  · intro j hj
    rcases (hasNode_place _ _ _ _).1 hj with rfl | hj
    · exact hid
    · exact UInt32.lt_of_lt_of_le (hc.node_lt j hj) hnext

/-- A node that is added has the next id. -/
theorem eq_of_addNode {n : Node} (h : g.addNode n = .ok (id, g')) :
    g.nextId ≠ lastId ∧ id = g.nextId ∧
      g' = ({ g with nextId := g.nextId + 1 } : Graph).place g.nextId n := by
  unfold Graph.addNode allocate at h
  split at h
  · cases h
  · next hlast =>
    cases h
    exact ⟨hlast, rfl, rfl⟩

theorem Consistent.addNode (hc : g.Consistent) {n : Node} (h : g.addNode n = .ok (id, g')) :
    g.AddsNode n id g' := by
  obtain ⟨hlast, rfl, rfl⟩ := eq_of_addNode h
  have hnone : g.node? g.nextId = none := by simpa [hasNode_eq] using hc.fresh.1
  have hlt : g.nextId < g.nextId + 1 := lt_add_one_of_le hlast (UInt32.le_refl _)
  refine { consistent := hc.place n (UInt32.le_of_lt hlt) hlt, fresh := hc.fresh.1,
           node? := fun j => ?_, neighbors := fun j => neighbors_place _ _ _ j,
           edge? := fun _ => rfl, id_eq := rfl, nextId := rfl, outbox := rfl }
  rw [node?_place]
  change (if j = g.nextId then some ((g.node? g.nextId).getD n) else g.node? j) = _
  rw [hnone, Option.getD_none]

/-- Between nodes that exist an edge is refused only when the ids have run out. -/
theorem addEdge_error {source target : Id} {kind : EdgeKind} {e : GraphError}
    (hs : g.hasNode source) (ht : g.hasNode target)
    (h : g.addEdge source target kind = .error e) : e = .idSpaceExhausted := by
  unfold addEdge allocate at h
  simp only [hs, ht, Bool.not_true, Bool.false_eq_true, if_false] at h
  split at h
  · exact (Except.error.inj h).symm
  · cases h

theorem nextId_of_addEdge_error {source target : Id} {kind : EdgeKind} {e : GraphError}
    (hs : g.hasNode source) (ht : g.hasNode target)
    (h : g.addEdge source target kind = .error e) : g.nextId = lastId := by
  unfold addEdge allocate at h
  simp only [hs, ht, Bool.not_true, Bool.false_eq_true, if_false] at h
  split at h
  · next hlast => exact hlast
  · cases h

theorem addEdge_eq_ok {source target : Id} {kind : EdgeKind} (hs : g.hasNode source)
    (ht : g.hasNode target) (hroom : g.nextId ≠ lastId) :
    ∃ edge g', g.addEdge source target kind = .ok (edge, g') := by
  cases h : g.addEdge source target kind with
  | ok r => exact ⟨r.1, r.2, rfl⟩
  | error err => exact absurd (nextId_of_addEdge_error hs ht h) hroom

theorem ne_lastId_of_lt {id : Id} (h : id.toNat < lastId.toNat) : id ≠ lastId := by
  rintro rfl
  exact Nat.lt_irrefl _ h

theorem edgeList_attach {e : Edge} (he : g.hasEdge e.id = false) :
    (g.attach e).edgeList.Perm (e :: g.edgeList) :=
  Table.elems_insert_perm he e

theorem neighbors_attach (hc : g.Consistent) {e : Edge} (hs : g.hasNode e.source) (j : Id) :
    (g.attach e).neighbors j =
      if j = e.source then g.neighbors j ++ [e.target] else g.neighbors j := by
  have h := neighbors_modify g e.source (· ++ [e.target]) (Or.inr ((hc.targets _).trans hs)) j
  rw [neighbors, attach, h]
  split
  · next hj => rw [hj]
  · rfl

theorem outDegree_attach (hc : g.Consistent) {e : Edge} (hs : g.hasNode e.source) (j : Id) :
    (g.attach e).outDegree j = if j = e.source then g.outDegree j + 1 else g.outDegree j := by
  have h := outDegree_modify g e.source (· + 1) (Or.inr ((hc.degree _).trans hs)) j
  rw [outDegree, attach, h]
  split
  · next hj => rw [hj]
  · rfl

theorem edge?_attach {e : Edge} (he : g.hasEdge e.id = false) (j : Id) :
    (g.attach e).edge? j = if j = e.id then some e else g.edge? j := by
  have hnone : g.edges.get? e.id = none := by
    simpa [hasEdge_eq, edge?] using he
  have h := g.edges.get?_insert e.id e j
  rw [hnone, Option.getD_none] at h
  exact h

theorem Consistent.attach (hc : g.Consistent) {e : Edge} {next : Id}
    (hfresh : g.hasEdge e.id = false) (hnext : g.nextId ≤ next) (hid : e.id < next)
    (hs : g.hasNode e.source) (ht : g.hasNode e.target) :
    (({ g with nextId := next } : Graph).attach e).Consistent := by
  refine { degree := ?_, targets := ?_, count := ?_, perm := ?_, own := ?_, ends := ?_,
           node_lt := fun j hj => UInt32.lt_of_lt_of_le (hc.node_lt j hj) hnext, edge_lt := ?_ }
  · intro j
    refine Eq.trans ?_ (hc.degree j)
    simp only [Graph.attach, Table.get?_modify]
    split
    · next hj => simp [hj]
    · rfl
  · intro j
    refine Eq.trans ?_ (hc.targets j)
    simp only [Graph.attach, Table.get?_modify]
    split
    · next hj => simp [hj]
    · rfl
  · intro j
    change (g.attach e).outDegree j = ((g.attach e).neighbors j).length
    rw [outDegree_attach hc hs, neighbors_attach hc hs, hc.count]
    split
    · rw [List.length_append, List.length_singleton]
    · rfl
  · intro j
    change ((g.attach e).neighbors j).Perm (((g.attach e).edgesFrom j).map Edge.target)
    have hperm := ((edgeList_attach hfresh).filter fun f => f.source == j).map Edge.target
    refine List.Perm.trans ?_ hperm.symm
    rw [neighbors_attach hc hs]
    split
    · next hj =>
      rw [List.filter_cons_of_pos (by simp [hj]), List.map_cons]
      exact (List.perm_append_singleton _ _).trans ((hc.perm j).cons _)
    · next hj =>
      rw [List.filter_cons_of_neg (by simpa using Ne.symm hj)]
      exact hc.perm j
  · intro j f hf
    change (g.attach e).edge? j = some f at hf
    rw [edge?_attach hfresh] at hf
    split at hf
    · next hj => rw [hj, Option.some.inj hf]
    · exact hc.own j f hf
  · intro j f hf
    change (g.attach e).edge? j = some f at hf
    rw [edge?_attach hfresh] at hf
    split at hf
    · exact Option.some.inj hf ▸ ⟨hs, ht⟩
    · exact hc.ends j f hf
  · intro j hj
    change (g.attach e).hasEdge j at hj
    rw [hasEdge_eq, edge?_attach hfresh] at hj
    split at hj
    · next heq => exact heq ▸ hid
    · exact UInt32.lt_of_lt_of_le (hc.edge_lt j (by rw [hasEdge_eq]; exact hj)) hnext

/-- An edge that is added has the next id and stands between nodes. -/
theorem eq_of_addEdge {source target : Id} {kind : EdgeKind}
    (h : g.addEdge source target kind = .ok (id, g')) :
    (g.hasNode source ∧ g.hasNode target) ∧ g.nextId ≠ lastId ∧ id = g.nextId ∧
      ∃ g₁, g₁ = ({ g with nextId := g.nextId + 1 } : Graph).attach
          ⟨g.nextId, source, target, kind⟩ ∧
        g' = if kind = .external then g₁.pushEvent (.linkCreated source target) else g₁ := by
  unfold Graph.addEdge allocate at h
  by_cases hs : g.hasNode source
  swap
  · simp [hs, bind, Except.bind, throw, throwThe, MonadExceptOf.throw] at h
  by_cases ht : g.hasNode target
  swap
  · simp [hs, ht, bind, Except.bind, throw, throwThe, MonadExceptOf.throw] at h
  simp only [hs, ht, Bool.not_true, Bool.false_eq_true, if_false] at h
  split at h
  · cases h
  · next hlast =>
    obtain ⟨rfl, rfl⟩ := Prod.mk.inj (Except.ok.inj h)
    exact ⟨⟨hs, ht⟩, hlast, rfl, _, rfl, rfl⟩

theorem Consistent.addEdge (hc : g.Consistent) {source target : Id} {kind : EdgeKind}
    (h : g.addEdge source target kind = .ok (id, g')) :
    g.hasNode source ∧ g.hasNode target ∧ g.AddsEdge ⟨id, source, target, kind⟩ g' := by
  obtain ⟨⟨hs, ht⟩, hlast, rfl, g₁, rfl, rfl⟩ := eq_of_addEdge h
  have hlt : g.nextId < g.nextId + 1 := lt_add_one_of_le hlast (UInt32.le_refl _)
  have hcons := hc.attach (e := ⟨g.nextId, source, target, kind⟩) hc.fresh.2 (UInt32.le_of_lt hlt)
    hlt hs ht
  refine ⟨hs, ht, { consistent := ?_, fresh := hc.fresh.2, node? := ?_, neighbors := ?_,
                    edge? := ?_, id_eq := rfl, nextId := ?_, outbox := ?_ }⟩
  · split
    · exact hcons.withOutbox _
    · exact hcons
  · intro j
    split <;> rfl
  · intro j
    refine Eq.trans ?_ (neighbors_attach hc (e := ⟨g.nextId, source, target, kind⟩) hs j)
    split <;> rfl
  · intro j
    refine Eq.trans ?_ (edge?_attach (e := ⟨g.nextId, source, target, kind⟩) hc.fresh.2 j)
    split <;> rfl
  · split <;> rfl
  · split
    · rfl
    · exact (List.append_nil _).symm

def detach (g : Graph) (e : Edge) : Graph :=
  { g with
    edges := g.edges.erase e.id
    degrees := g.degrees.modify e.source (· - 1)
    targets := g.targets.modify e.source (·.erase e.target) }

theorem edgeList_detach {e : Edge} (he : g.edge? e.id = some e) :
    g.edgeList.Perm (e :: (g.detach e).edgeList) :=
  Table.elems_erase_perm he

theorem neighbors_detach (g : Graph) (e : Edge) (j : Id) : (g.detach e).neighbors j =
    if j = e.source then (g.neighbors j).erase e.target else g.neighbors j := by
  refine (neighbors_modify g e.source (·.erase e.target) (Or.inl rfl) j).trans ?_
  split
  · next hj => rw [hj]
  · rfl

theorem outDegree_detach (g : Graph) (e : Edge) (j : Id) : (g.detach e).outDegree j =
    if j = e.source then g.outDegree j - 1 else g.outDegree j := by
  refine (outDegree_modify g e.source (· - 1) (Or.inl rfl) j).trans ?_
  split
  · next hj => rw [hj]
  · rfl

theorem edge?_detach (g : Graph) (e : Edge) (j : Id) :
    (g.detach e).edge? j = if j = e.id then none else g.edge? j :=
  g.edges.get?_erase e.id j

theorem edge?_of_detach {e f : Edge} {j : Id} (h : (g.detach e).edge? j = some f) :
    g.edge? j = some f := by
  rw [edge?_detach] at h
  split at h
  · cases h
  · exact h

theorem Consistent.detach (hc : g.Consistent) {e : Edge} (he : g.edge? e.id = some e) :
    (g.detach e).Consistent := by
  have hmem : e.target ∈ g.neighbors e.source :=
    hc.mem_neighbors.2 ⟨e, mem_edgesFrom.2 ⟨⟨_, he⟩, rfl⟩, rfl⟩
  refine { degree := fun j => ?_, targets := fun j => ?_, count := fun j => ?_,
           perm := fun j => ?_, own := fun j f hf => hc.own j f (edge?_of_detach hf),
           ends := fun j f hf => hc.ends j f (edge?_of_detach hf), node_lt := hc.node_lt,
           edge_lt := fun j hj => hc.edge_lt j ?_ }
  · refine Eq.trans ?_ (hc.degree j)
    simp only [Graph.detach, Table.get?_modify]
    split
    · next hj => simp [hj]
    · rfl
  · refine Eq.trans ?_ (hc.targets j)
    simp only [Graph.detach, Table.get?_modify]
    split
    · next hj => simp [hj]
    · rfl
  · rw [outDegree_detach, neighbors_detach, hc.count]
    split
    · next hj => rw [hj, List.length_erase_of_mem hmem]
    · rfl
  · have hperm := ((edgeList_detach he).filter fun f => f.source == j).map Edge.target
    have hall := (hc.perm j).trans hperm
    rw [neighbors_detach]
    split
    · next hj =>
      rw [List.filter_cons_of_pos (by simp [hj]), List.map_cons] at hall
      have herase := hall.erase e.target
      rw [List.erase_cons_head] at herase
      exact herase
    · next hj =>
      rw [List.filter_cons_of_neg (by simpa using Ne.symm hj)] at hall
      exact hall
  · rw [hasEdge_eq, Option.isSome_iff_exists] at hj ⊢
    exact hj.imp fun f hf => edge?_of_detach hf

theorem Consistent.eraseEdge (hc : g.Consistent) {e : Edge} (he : g.edge? id = some e) :
    ∃ g', g.eraseEdge id = .ok (e, g') ∧ g.ErasesEdge e g' := by
  obtain rfl : e.id = id := hc.own id e he
  have hget : g.edges.get? e.id = some e := he
  have hext : e.isExternal = true ↔ e.kind = .external := by
    simp [Edge.isExternal]
  have hcons := hc.detach he
  refine ⟨_, by rw [Graph.eraseEdge, hget], ?_⟩
  refine { consistent := ?_, node? := ?_, neighbors := ?_, edge? := ?_, nextId := ?_, outbox := ?_ }
  · split
    · exact hcons.withOutbox _
    · exact hcons
  · intro j
    split <;> rfl
  · intro j
    refine Eq.trans ?_ (neighbors_detach g e j)
    split <;> rfl
  · intro j
    refine Eq.trans ?_ (edge?_detach g e j)
    split <;> rfl
  · split <;> rfl
  · split
    · next hx =>
      rw [if_pos (hext.1 hx)]
      rfl
    · next hx =>
      rw [if_neg fun hk => hx (hext.2 hk)]
      exact (List.append_nil _).symm

theorem Consistent.erasesEdge (hc : g.Consistent) {e : Edge}
    (h : g.eraseEdge id = .ok (e, g')) : g.edge? id = some e ∧ g.ErasesEdge e g' := by
  obtain ⟨f, hf⟩ : ∃ f, g.edge? id = some f := by
    cases hid : g.edges.get? id with
    | none => simp [Graph.eraseEdge, hid] at h
    | some f => exact ⟨f, hid⟩
  obtain ⟨g₁, hg₁, herase⟩ := hc.eraseEdge hf
  rw [hg₁] at h
  cases h
  exact ⟨hf, herase⟩

/-- `g'` is `g` without edges that touch one node, the other nodes keeping their other targets in
order. -/
structure ErasesEdges (g : Graph) (ids : List Id) (id : Id) (g' : Graph) : Prop where
  consistent : g'.Consistent
  node? : ∀ j, g'.node? j = g.node? j
  neighbors : ∀ j ≠ id, (g'.neighbors j).filter (· ≠ id) = (g.neighbors j).filter (· ≠ id)
  edge? : ∀ j, g'.edge? j = if j ∈ ids then none else g.edge? j
  nextId : g'.nextId = g.nextId
  outbox : ∀ event ∈ g'.outbox, event ∈ g.outbox ∨ ∃ i e, g.edge? i = some e ∧ e.touches id ∧
    e.kind = .external ∧ event = .linkDeleted e.source e.target

theorem Consistent.eraseEdges (hc : g.Consistent) {ids : List Id} (hids : ids.Nodup)
    (ht : ∀ i ∈ ids, ∃ e, g.edge? i = some e ∧ e.touches id) :
    ∃ g', g.eraseEdges ids = .ok g' ∧ g.ErasesEdges ids id g' := by
  induction ids generalizing g with
  | nil =>
      exact ⟨g, rfl, hc, fun _ => rfl, fun _ _ => rfl, fun _ => by simp, rfl, fun _ h => Or.inl h⟩
  | cons i ids ih =>
      obtain ⟨hi, hids⟩ := List.nodup_cons.1 hids
      obtain ⟨e, he, htouch⟩ := ht i List.mem_cons_self
      obtain ⟨g₁, hg₁, h₁⟩ := hc.eraseEdge he
      have hei : e.id = i := hc.own i e he
      have hrest : ∀ j ∈ ids, ∃ f, g₁.edge? j = some f ∧ f.touches id := by
        intro j hj
        obtain ⟨f, hf, hft⟩ := ht j (List.mem_cons_of_mem _ hj)
        refine ⟨f, ?_, hft⟩
        rw [h₁.edge?, if_neg, hf]
        rintro rfl
        exact hi (hei ▸ hj)
      obtain ⟨g₂, hg₂, h₂⟩ := ih h₁.consistent hids hrest
      refine ⟨g₂, by simp [Graph.eraseEdges, hg₁, hg₂, bind, Except.bind], h₂.consistent,
        fun j => (h₂.node? j).trans (h₁.node? j), ?_, ?_, h₂.nextId.trans h₁.nextId, ?_⟩
      · intro j hj
        rw [h₂.neighbors j hj, h₁.neighbors]
        split
        · next hs =>
          -- an edge that leaves another node and touches `id` leads to `id`
          have htarget : e.target = id := by
            have hne : e.source ≠ id := fun h => hj (hs.trans h)
            simpa [Edge.touches, hne] using htouch
          rw [htarget, ← List.erase_filter, List.erase_of_not_mem (by simp)]
        · rfl
      · intro j
        rw [h₂.edge?, h₁.edge?, hei]
        by_cases hj : j ∈ ids <;> by_cases hji : j = i <;> simp [hj, hji]
      · intro event hevent
        rcases h₂.outbox event hevent with hold | ⟨j, f, hf, hft, hkind, heq⟩
        · rw [h₁.outbox, List.mem_append] at hold
          refine hold.imp_right fun hnew => ⟨i, e, he, htouch, ?_⟩
          split at hnew
          · next hkind => exact ⟨hkind, List.mem_singleton.1 hnew⟩
          · cases hnew
        · rw [h₁.edge?] at hf
          split at hf
          · cases hf
          · exact Or.inr ⟨j, f, hf, hft, hkind, heq⟩

theorem edgeIds_eq (hc : g.Consistent) : g.edgeList.map Edge.id = g.edges.ids.toList := by
  apply List.ext_getElem?
  intro i
  rw [List.getElem?_map, edgeList, Array.getElem?_toList, Array.getElem?_toList]
  by_cases hi : i < g.edges.ids.size
  · have hi' : i < g.edges.elems.size := g.edges.size_eq ▸ hi
    rw [Array.getElem?_eq_getElem hi, Array.getElem?_eq_getElem hi', Option.map_some]
    have hget : g.edge? g.edges.ids[i] = some g.edges.elems[i] :=
      (g.edges.get?_eq_some_iff _ _).2
        ⟨i, Array.getElem?_eq_getElem hi, Array.getElem?_eq_getElem hi'⟩
    rw [hc.own _ _ hget]
  · have hi' : ¬ i < g.edges.elems.size := g.edges.size_eq ▸ hi
    rw [Array.getElem?_eq_none (Nat.le_of_not_lt hi),
      Array.getElem?_eq_none (Nat.le_of_not_lt hi'), Option.map_none]

/-- The edges are listed in id order. -/
theorem pairwise_edgeList (hc : g.Consistent) : g.edgeList.Pairwise fun e f => e.id < f.id := by
  rw [← List.pairwise_map, edgeIds_eq hc]
  exact g.edges.pairwise_ids

theorem nodup_edgeIds (hc : g.Consistent) : (g.edgeList.map Edge.id).Nodup := by
  refine (List.pairwise_map.2 (pairwise_edgeList hc)).imp fun hlt heq => ?_
  rw [heq] at hlt
  exact UInt32.lt_irrefl _ hlt

def Bare (g : Graph) (id : Id) : Prop := ∀ i e, g.edge? i = some e → ¬ e.touches id

theorem Bare.notMem_neighbors (h : g.Bare id) (hc : g.Consistent) (j : Id) :
    id ∉ g.neighbors j := by
  intro hmem
  obtain ⟨e, he, ht⟩ := hc.mem_neighbors.1 hmem
  obtain ⟨⟨i, hi⟩, _⟩ := mem_edgesFrom.1 he
  exact h i e hi (by simp [Edge.touches, ht])

theorem Bare.neighbors_eq_nil (h : g.Bare id) (hc : g.Consistent) : g.neighbors id = [] := by
  rw [List.eq_nil_iff_forall_not_mem]
  intro m hmem
  obtain ⟨e, he, _⟩ := hc.mem_neighbors.1 hmem
  obtain ⟨⟨i, hi⟩, hs⟩ := mem_edgesFrom.1 he
  exact h i e hi (by simp [Edge.touches, hs])

def displace (g : Graph) (id : Id) : Graph :=
  { g with
    nodes := g.nodes.erase id
    degrees := g.degrees.erase id
    targets := g.targets.erase id }

theorem node?_displace (g : Graph) (id j : Id) :
    (g.displace id).node? j = if j = id then none else g.node? j :=
  g.nodes.get?_erase id j

theorem hasNode_displace (g : Graph) (id j : Id) :
    (g.displace id).hasNode j = if j = id then false else g.hasNode j := by
  rw [hasNode_eq, node?_displace, hasNode_eq]
  split <;> rfl

theorem neighbors_displace (hnil : g.neighbors id = []) (j : Id) :
    (g.displace id).neighbors j = g.neighbors j := by
  rw [neighbors, displace, g.targets.get?_erase]
  split
  · next hj => rw [hj, hnil, Option.getD_none]
  · rfl

theorem outDegree_displace (hzero : g.outDegree id = 0) (j : Id) :
    (g.displace id).outDegree j = g.outDegree j := by
  rw [outDegree, displace, g.degrees.get?_erase]
  split
  · next hj => rw [hj, hzero, Option.getD_none]
  · rfl

theorem Consistent.displace (hc : g.Consistent) (hbare : g.Bare id) :
    (g.displace id).Consistent := by
  have hnil := hbare.neighbors_eq_nil hc
  refine { degree := ?_, targets := ?_, count := ?_, perm := ?_, own := hc.own, ends := ?_,
           node_lt := ?_, edge_lt := hc.edge_lt }
  · intro j
    rw [hasNode_displace, ← hc.degree j]
    refine (congrArg Option.isSome (g.degrees.get?_erase id j)).trans ?_
    split <;> rfl
  · intro j
    rw [hasNode_displace, ← hc.targets j]
    refine (congrArg Option.isSome (g.targets.get?_erase id j)).trans ?_
    split <;> rfl
  · intro j
    rw [outDegree_displace (hc.outDegree_eq_zero_iff.2 hnil), neighbors_displace hnil]
    exact hc.count j
  · intro j
    rw [neighbors_displace hnil]
    exact hc.perm j
  · intro j e he
    have hapart := hbare j e he
    simp only [Edge.touches, Bool.or_eq_true, beq_iff_eq, not_or] at hapart
    rw [hasNode_displace, hasNode_displace, if_neg hapart.1, if_neg hapart.2]
    exact hc.ends j e he
  · intro j hj
    rw [hasNode_displace] at hj
    split at hj
    · cases hj
    · exact hc.node_lt j hj

/-- Erasing the edges that touch a node leaves it bare, and the other edges as they were. -/
theorem Consistent.eraseTouching (hc : g.Consistent) (id : Id) :
    ∃ ids g', g.eraseEdges ((g.edgeList.filter (·.touches id)).map (·.id)) = .ok g' ∧
      g.ErasesEdges ids id g' ∧
        ∀ i e, g'.edge? i = some e ↔ g.edge? i = some e ∧ ¬ e.touches id := by
  have hids : ((g.edgeList.filter (·.touches id)).map (·.id)).Nodup :=
    (nodup_edgeIds hc).sublist (List.filter_sublist.map _)
  have htouch : ∀ i ∈ (g.edgeList.filter (·.touches id)).map (·.id),
      ∃ e, g.edge? i = some e ∧ e.touches id := by
    intro i hi
    obtain ⟨e, he, rfl⟩ := List.mem_map.1 hi
    obtain ⟨hmem, ht⟩ := List.mem_filter.1 he
    obtain ⟨j, hj⟩ := mem_edgeList.1 hmem
    exact ⟨e, by rw [hc.own j e hj]; exact hj, ht⟩
  obtain ⟨g', hg', h⟩ := hc.eraseEdges hids htouch
  refine ⟨_, g', hg', h, fun i e => ?_⟩
  rw [h.edge?]
  constructor
  · intro he
    split at he
    · cases he
    · next hi =>
      refine ⟨he, fun ht => hi (List.mem_map.2 ⟨e, List.mem_filter.2 ⟨?_, ht⟩, hc.own i e he⟩)⟩
      exact mem_edgeList.2 ⟨i, he⟩
  · rintro ⟨he, ht⟩
    rw [if_neg, he]
    intro hi
    obtain ⟨f, hf, hft⟩ := htouch i hi
    rw [he] at hf
    exact ht (Option.some.inj hf ▸ hft)

theorem eraseNode_of_edges {n : Node} {g₁ : Graph} (hn : g.node? id = some n)
    (h : g.eraseEdges ((g.edgeList.filter (·.touches id)).map (·.id)) = .ok g₁) :
    g.eraseNode id = .ok (n, g₁.displace id) := by
  have hget : g.nodes.get? id = some n := hn
  rw [Graph.eraseNode, hget]
  change (g.eraseEdges _ >>= _) = _
  rw [h]
  rfl

theorem Consistent.eraseNode (hc : g.Consistent) (hn : g.hasNode id) :
    ∃ n g', g.eraseNode id = .ok (n, g') ∧ g.ErasesNode id g' := by
  obtain ⟨n, hget⟩ : ∃ n, g.nodes.get? id = some n := by
    rw [hasNode_eq] at hn
    exact Option.isSome_iff_exists.1 hn
  obtain ⟨ids, g₁, hg₁, h₁, hleft⟩ := hc.eraseTouching id
  have hbare : g₁.Bare id := fun i e he => ((hleft i e).1 he).2
  have hnil := hbare.neighbors_eq_nil h₁.consistent
  refine ⟨n, g₁.displace id, eraseNode_of_edges hget hg₁, h₁.consistent.displace hbare, ?_, ?_, ?_,
    h₁.nextId, h₁.outbox⟩
  · intro j
    rw [node?_displace, h₁.node?]
  · intro j
    rw [neighbors_displace hnil]
    split
    · next hj => rw [hj, hnil]
    · next hj =>
      rw [← h₁.neighbors j hj]
      refine (List.filter_eq_self.2 fun m hm => ?_).symm
      have hne : m ≠ id := fun h => hbare.notMem_neighbors h₁.consistent j (h ▸ hm)
      simpa using hne
  · intro j
    change g₁.edge? j = _
    ext e
    rw [hleft, Option.filter_eq_some_iff]
    simp

theorem Consistent.erasesNode (hc : g.Consistent) {n : Node}
    (h : g.eraseNode id = .ok (n, g')) : g.ErasesNode id g' := by
  have hn : g.hasNode id := by
    rw [hasNode_eq, node?]
    cases hid : g.nodes.get? id with
    | none => simp [Graph.eraseNode, hid] at h
    | some n => rfl
  obtain ⟨_, g₁, hg₁, herase⟩ := hc.eraseNode hn
  rw [hg₁] at h
  cases h
  exact herase

end Graph

end DrawGraph
