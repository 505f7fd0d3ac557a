import DrawGraph.Proofs.Graph.Order
import Mathlib.Data.List.Perm.Subperm

/-!
# Graphs put together again

Nodes and edges that are put back leave the tables consistent, but an edge put back before edges to
other targets leaves its target behind theirs. A table is known by what it holds, so inserting all
its entries into the empty table makes it anew. In the same way a graph comes out of its nodes and
edges, put back in id order, with the targets in the order of the edges.
-/

namespace DrawGraph

namespace Table

universe u v

variable {κ : Type u} {α : Type v} [Ord κ]

section Lawful

variable [Std.TransOrd κ] [Std.LawfulEqOrd κ]

/-- Entries inserted one after another. -/
def insertAll (t : Table κ α) (entries : List (κ × α)) : Table κ α :=
  entries.foldl (fun t p => (t.insert p.1 p.2).1) t

theorem get?_insertAll {t : Table κ α} {entries : List (κ × α)}
    (hnodup : (entries.map Prod.fst).Nodup) (hfresh : ∀ p ∈ entries, t.contains p.1 = false)
    (k : κ) (a : α) :
    (t.insertAll entries).get? k = some a ↔ t.get? k = some a ∨ (k, a) ∈ entries := by
  induction entries generalizing t with
  | nil => simp [insertAll]
  | cons p entries ih =>
      obtain ⟨hp, hnodup⟩ := List.nodup_cons.1 hnodup
      obtain ⟨hnew, hfresh⟩ := List.forall_mem_cons.1 hfresh
      have hinsert := t.get?_insert_of_not_holds (Bool.eq_false_iff.1 hnew) p.2
      have hstep : t.insertAll (p :: entries) = (t.insert p.1 p.2).1.insertAll entries := rfl
      have hstill : ∀ q ∈ entries, (t.insert p.1 p.2).1.contains q.1 = false := by
        intro q hq
        have hold := hfresh q hq
        rw [contains_eq, Option.isSome_eq_false_iff, Option.isNone_iff_eq_none] at hold ⊢
        rw [Option.eq_none_iff_forall_ne_some]
        intro b hb
        rcases (hinsert q.1 b).1 hb with ⟨heq, _⟩ | hb
        · exact hp (heq ▸ List.mem_map_of_mem hq)
        · simp [hold] at hb
      rw [hstep, ih hnodup hstill, hinsert, List.mem_cons, ← or_assoc]
      apply or_congr_left
      rw [or_comm, Prod.ext_iff]

end Lawful

variable {t t' : Table Id α}

/-- A table holds nothing but what `get?` finds in it. -/
theorem eq_of_get? (h : ∀ k, t.get? k = t'.get? k) : t = t' := by
  have hnodup (t : Table Id α) : t.ids.toList.Nodup :=
    t.pairwise_ids.imp UInt32.ne_of_lt
  have hids : t.ids = t'.ids := by
    apply Array.toList_inj.1
    have hperm : t.ids.toList.Perm t'.ids.toList := by
      rw [List.perm_ext_iff_of_nodup (hnodup t) (hnodup t')]
      intro k
      rw [mem_ids, mem_ids, h]
    apply hperm.eq_of_pairwise _ t.pairwise_ids t'.pairwise_ids
    exact fun _ _ _ _ hab hba => absurd (UInt32.lt_trans hab hba) (UInt32.lt_irrefl _)
  have helems : t.elems = t'.elems := by
    apply Array.ext
    · rw [← t.size_eq, ← t'.size_eq, hids]
    · intro i hi hi'
      have hsize : i < t.ids.size := t.size_eq ▸ hi
      have hk : t.ids[i]? = some t.ids[i] := Array.getElem?_eq_getElem hsize
      have hfound := (t.get?_eq_some_iff _ _).2 ⟨i, hk, Array.getElem?_eq_getElem hi⟩
      have hk' : t'.ids[i]? = some t.ids[i] := by rw [← hids, hk]
      have hfound' := (t'.get?_eq_some_iff _ _).2 ⟨i, hk', Array.getElem?_eq_getElem hi'⟩
      exact Option.some.inj (hfound.symm.trans ((h _).trans hfound'))
  cases t
  cases t'
  cases hids
  cases helems
  rfl

theorem nodup_keys (t : Table Id α) : (t.entries.map Prod.fst).Nodup := by
  rw [keys_entries]
  exact t.pairwise_ids.imp UInt32.ne_of_lt

theorem insertAll_entries (t : Table Id α) : (empty.insertAll t.entries : Table Id α) = t := by
  apply eq_of_get?
  intro k
  ext a
  rw [get?_insertAll t.nodup_keys (fun _ _ => by rw [contains_eq, get?_empty, Option.isSome_none]),
    get?_empty, mem_entries]
  simp

end Table

namespace Graph

variable {g g' : Graph}

/-- Nodes put in place one after another, each with room for its id. -/
def placeAll (g : Graph) (nodes : List (Id × Node)) : Graph :=
  nodes.foldl (fun g p => (g.place p.1 p.2).reserve (p.1 + 1)) g

/-- Edges attached one after another, each with room for its id. -/
def attachAll (g : Graph) (edges : List Edge) : Graph :=
  edges.foldl (fun g e => (g.attach e).reserve (e.id + 1)) g

theorem le_nextId_reserve (g : Graph) (next : Id) :
    g.nextId ≤ (g.reserve next).nextId ∧ next ≤ (g.reserve next).nextId := by
  change g.nextId ≤ (if g.nextId ≤ next then next else g.nextId) ∧
    next ≤ (if g.nextId ≤ next then next else g.nextId)
  split
  · next h => exact ⟨h, UInt32.le_refl _⟩
  · next h => exact ⟨UInt32.le_refl _, UInt32.le_of_lt (UInt32.not_le.1 h)⟩

theorem Consistent.reserve (hc : g.Consistent) (next : Id) : (g.reserve next).Consistent where
  degree := hc.degree
  targets := hc.targets
  count := hc.count
  perm := hc.perm
  own := hc.own
  ends := hc.ends
  node_lt id h := UInt32.lt_of_lt_of_le (hc.node_lt id h) (le_nextId_reserve g next).1
  edge_lt id h := UInt32.lt_of_lt_of_le (hc.edge_lt id h) (le_nextId_reserve g next).1

theorem Aligned.reserve (h : g.Aligned) (next : Id) : (g.reserve next).Aligned :=
  ⟨h.consistent.reserve next, h.inOrder⟩

theorem reserve_le {next bound : Id} (hg : g.nextId ≤ bound) (hnext : next ≤ bound) :
    (g.reserve next).nextId ≤ bound := by
  change (if g.nextId ≤ next then next else g.nextId) ≤ bound
  split
  · exact hnext
  · exact hg

theorem add_one_le {id bound : Id} (h : id < bound) : id + 1 ≤ bound := by
  have hlt := bound.toNat_lt
  rw [UInt32.lt_iff_toNat_lt] at h
  rw [UInt32.le_iff_toNat_le, UInt32.toNat_add]
  simp only [UInt32.reduceToNat]
  omega

/-! ## Putting nodes back -/

theorem nodes_placeAll (g : Graph) (nodes : List (Id × Node)) :
    (g.placeAll nodes).nodes = g.nodes.insertAll nodes := by
  induction nodes generalizing g with
  | nil => rfl
  | cons p nodes ih => exact ih _

theorem degrees_placeAll (g : Graph) (nodes : List (Id × Node)) :
    (g.placeAll nodes).degrees = g.degrees.insertAll (nodes.map fun p => (p.1, 0)) := by
  induction nodes generalizing g with
  | nil => rfl
  | cons p nodes ih => exact ih _

theorem targets_placeAll (g : Graph) (nodes : List (Id × Node)) :
    (g.placeAll nodes).targets = g.targets.insertAll (nodes.map fun p => (p.1, [])) := by
  induction nodes generalizing g with
  | nil => rfl
  | cons p nodes ih => exact ih _

theorem edges_placeAll (g : Graph) (nodes : List (Id × Node)) :
    (g.placeAll nodes).edges = g.edges ∧ (g.placeAll nodes).outbox = g.outbox := by
  induction nodes generalizing g with
  | nil => exact ⟨rfl, rfl⟩
  | cons p nodes ih => exact ih _

theorem nextId_placeAll {nodes : List (Id × Node)} {bound : Id} (hg : g.nextId ≤ bound)
    (hnodes : ∀ p ∈ nodes, p.1 < bound) : (g.placeAll nodes).nextId ≤ bound := by
  induction nodes generalizing g with
  | nil => exact hg
  | cons p nodes ih =>
      obtain ⟨hp, hnodes⟩ := List.forall_mem_cons.1 hnodes
      exact ih (reserve_le hg (add_one_le hp)) hnodes

theorem restoreNode_eq_ok {id : Id} {n : Node} : g.restoreNode id n = .ok g' ↔
    id ≠ lastId ∧ g.hasNode id = false ∧ g' = (g.place id n).reserve (id + 1) := by
  unfold restoreNode
  by_cases hlast : id = lastId
  · simp [hlast]
  by_cases hnew : g.hasNode id = true
  · simp [hlast, hnew]
  · simp [hlast, hnew, eq_comm]

/-- A node put back under a free id. -/
theorem Consistent.restoreNode (hc : g.Consistent) {id : Id} {n : Node}
    (h : g.restoreNode id n = .ok g') : g'.Consistent := by
  obtain ⟨hlast, _, rfl⟩ := restoreNode_eq_ok.1 h
  have hnext := le_nextId_reserve g (id + 1)
  have hid : id < (g.reserve (id + 1)).nextId :=
    UInt32.lt_of_lt_of_le (lt_add_one_of_le hlast (UInt32.le_refl _)) hnext.2
  exact hc.place n hnext.1 hid

theorem Aligned.restoreNode (h : g.Aligned) {id : Id} {n : Node}
    (hr : g.restoreNode id n = .ok g') : g'.Aligned := by
  refine ⟨h.consistent.restoreNode hr, fun k => ?_⟩
  obtain ⟨_, _, rfl⟩ := restoreNode_eq_ok.1 hr
  exact (neighbors_place g id n k).trans (h.inOrder k)

/-! ## Putting edges back -/

theorem edges_attachAll (g : Graph) (edges : List Edge) :
    (g.attachAll edges).edges = g.edges.insertAll (edges.map fun e => (e.id, e)) := by
  induction edges generalizing g with
  | nil => rfl
  | cons e edges ih => exact ih _

theorem nodes_attachAll (g : Graph) (edges : List Edge) :
    (g.attachAll edges).nodes = g.nodes ∧ (g.attachAll edges).outbox = g.outbox := by
  induction edges generalizing g with
  | nil => exact ⟨rfl, rfl⟩
  | cons e edges ih => exact ih _

theorem targets_attachAll (g : Graph) (edges : List Edge) (n : Id) :
    (g.attachAll edges).targets.get? n =
      (g.targets.get? n).map (· ++ (edges.filter (·.source == n)).map Edge.target) := by
  induction edges generalizing g with
  | nil => simp [attachAll]
  | cons e edges ih =>
      have hstep : g.attachAll (e :: edges) = ((g.attach e).reserve (e.id + 1)).attachAll edges :=
        rfl
      have htargets : ((g.attach e).reserve (e.id + 1)).targets =
          g.targets.modify e.source (· ++ [e.target]) := rfl
      rw [hstep, ih, htargets, Table.get?_modify, List.filter_cons]
      by_cases hn : n = e.source
      · subst hn
        simp [Function.comp_def]
      · have hsource : (e.source == n) = false := beq_false_of_ne (Ne.symm hn)
        rw [if_neg hn, hsource]
        rfl

theorem degrees_attachAll (g : Graph) (edges : List Edge) (n : Id) :
    (g.attachAll edges).degrees.get? n =
      (g.degrees.get? n).map (· + (edges.filter (·.source == n)).length) := by
  induction edges generalizing g with
  | nil => simp [attachAll]
  | cons e edges ih =>
      have hstep : g.attachAll (e :: edges) = ((g.attach e).reserve (e.id + 1)).attachAll edges :=
        rfl
      have hdegrees : ((g.attach e).reserve (e.id + 1)).degrees =
          g.degrees.modify e.source (· + 1) := rfl
      rw [hstep, ih, hdegrees, Table.get?_modify, List.filter_cons]
      by_cases hn : n = e.source
      · subst hn
        simp [Function.comp_def, Nat.add_assoc, Nat.add_comm]
      · have hsource : (e.source == n) = false := beq_false_of_ne (Ne.symm hn)
        rw [if_neg hn, hsource]
        rfl

theorem nextId_attachAll {edges : List Edge} {bound : Id} (hg : g.nextId ≤ bound)
    (hedges : ∀ e ∈ edges, e.id < bound) : (g.attachAll edges).nextId ≤ bound := by
  induction edges generalizing g with
  | nil => exact hg
  | cons e edges ih =>
      obtain ⟨he, hedges⟩ := List.forall_mem_cons.1 hedges
      exact ih (reserve_le hg (add_one_le he)) hedges

theorem restoreEdge_eq_ok {e : Edge} : g.restoreEdge e = .ok g' ↔
    (g.hasNode e.source ∧ g.hasNode e.target) ∧ e.id ≠ lastId ∧ g.hasEdge e.id = false ∧
      g' = (g.attach e).reserve (e.id + 1) := by
  unfold restoreEdge
  by_cases hsource : g.hasNode e.source
  swap
  · simp [hsource, bind, Except.bind, throw, throwThe, MonadExceptOf.throw]
  by_cases htarget : g.hasNode e.target
  swap
  · simp [hsource, htarget, bind, Except.bind, throw, throwThe, MonadExceptOf.throw]
  by_cases hlast : e.id = lastId
  · simp [hsource, htarget, hlast, bind, Except.bind, throw, throwThe, MonadExceptOf.throw]
  by_cases hnew : g.hasEdge e.id
  · simp [hsource, htarget, hlast, hnew, bind, Except.bind, throw, throwThe, MonadExceptOf.throw]
  · simp [hsource, htarget, hlast, hnew, pure, Except.pure, eq_comm]

/-- An edge put back under a free id between nodes that exist. -/
theorem Consistent.restoreEdge (hc : g.Consistent) {e : Edge} (h : g.restoreEdge e = .ok g') :
    g'.Consistent := by
  obtain ⟨⟨hsource, htarget⟩, hlast, hnew, rfl⟩ := restoreEdge_eq_ok.1 h
  have hnext := le_nextId_reserve g (e.id + 1)
  have hid : e.id < (g.reserve (e.id + 1)).nextId :=
    UInt32.lt_of_lt_of_le (lt_add_one_of_le hlast (UInt32.le_refl _)) hnext.2
  exact hc.attach hnew hnext.1 hid hsource htarget

/-- The edge takes the place of its id and its target the last, which is the same just if no edge to
another target comes later. -/
theorem Aligned.restoreEdge_iff (h : g.Aligned) {e : Edge} (hr : g.restoreEdge e = .ok g') :
    g'.Aligned ↔ g.Hindmost e := by
  have hc := h.consistent
  have hc' := hc.restoreEdge hr
  obtain ⟨⟨hsource, _⟩, _, hnew, rfl⟩ := restoreEdge_eq_ok.1 hr
  have hneighbors (k : Id) : ((g.attach e).reserve (e.id + 1)).neighbors k =
      if k = e.source then g.neighbors k ++ [e.target] else g.neighbors k :=
    neighbors_attach hc hsource k
  have hedges := edgesFrom_insert hc hc' hnew (edge?_attach hnew)
  generalize ((g.attach e).reserve (e.id + 1)) = g' at hc' hneighbors hedges
  have hsame : g'.neighbors e.source = (g'.edgesFrom e.source).map Edge.target ↔ g.Hindmost e := by
    have hsplit := congrArg (List.map Edge.target) (edgesFrom_eq_append hc hnew e.source)
    rw [List.map_append] at hsplit
    rw [hneighbors, if_pos rfl, h.inOrder, hedges, if_pos rfl, hsplit, List.map_append,
      List.map_cons, List.append_assoc, List.append_right_inj, append_singleton_eq_cons_iff,
      List.forall_mem_map, Hindmost]
    simp only [List.mem_filter, decide_eq_true_eq, and_imp]
  rw [← hsame]
  refine ⟨fun h' => h'.inOrder e.source, fun hsource => ⟨hc', fun k => ?_⟩⟩
  by_cases hk : k = e.source
  · rw [hk, hsource]
  · rw [hneighbors, if_neg hk, hedges, if_neg hk, h.inOrder]

/-! ## The whole graph -/

theorem mem_nodes (g : Graph) {p : Id × Node} :
    p ∈ g.nodes.entries ↔ g.node? p.1 = some p.2 :=
  g.nodes.mem_entries p.1 p.2

theorem nodes_placeAll_entries (g : Graph) :
    (Graph.empty.placeAll g.nodes.entries).nodes = g.nodes :=
  (nodes_placeAll _ _).trans g.nodes.insertAll_entries

theorem length_edgeList (g : Graph) : g.edgeList.length = g.edges.size := by
  rw [edgeList, Array.length_toList, Table.size, g.edges.size_eq]

theorem Consistent.lt_of_mem_nodes (h : g.Consistent) {p : Id × Node}
    (hp : p ∈ g.nodes.entries) : p.1 < g.nextId := by
  apply h.node_lt
  rw [hasNode_eq, (mem_nodes g).1 hp]
  rfl

theorem Consistent.lt_of_mem_edgeList (h : g.Consistent) {e : Edge} (he : e ∈ g.edgeList) :
    e.id < g.nextId := by
  obtain ⟨id, hid⟩ := mem_edgeList.1 he
  rw [h.own id e hid]
  apply h.edge_lt
  rw [hasEdge_eq, hid]
  rfl

/-- Different ids below a bound are fewer than there are numbers. -/
theorem length_lt_size {ids : List Id} (hnodup : ids.Nodup) {bound : Id}
    (hlt : ∀ id ∈ ids, id < bound) : ids.length < UInt32.size := by
  have hsubset : ids.map UInt32.toNat ⊆ List.range bound.toNat := by
    intro n hn
    obtain ⟨id, hid, rfl⟩ := List.mem_map.1 hn
    exact List.mem_range.2 (UInt32.lt_iff_toNat_lt.1 (hlt id hid))
  have hmapped : (ids.map UInt32.toNat).Nodup := hnodup.map fun _ _ => UInt32.toNat_inj.1
  have hle := (List.subperm_of_subset hmapped hsubset).length_le
  rw [List.length_map, List.length_range] at hle
  exact Nat.lt_of_le_of_lt hle bound.toNat_lt

theorem Consistent.size_nodes_lt (h : g.Consistent) : g.nodes.size < UInt32.size := by
  rw [← Table.length_entries, ← List.length_map Prod.fst]
  apply length_lt_size g.nodes.nodup_keys
  intro id hid
  obtain ⟨p, hp, rfl⟩ := List.mem_map.1 hid
  exact h.lt_of_mem_nodes hp

theorem Consistent.size_edges_lt (h : g.Consistent) : g.edges.size < UInt32.size := by
  rw [← length_edgeList, ← List.length_map Edge.id]
  apply length_lt_size (nodup_edgeIds h)
  intro id hid
  obtain ⟨e, he, rfl⟩ := List.mem_map.1 hid
  exact h.lt_of_mem_edgeList he

/-- No id below another is the last. -/
theorem ne_lastId {id bound : Id} (h : id < bound) : id ≠ lastId := by
  have hbound := bound.toNat_lt
  have hlast : lastId.toNat = 4294967295 := rfl
  rintro rfl
  rw [UInt32.lt_iff_toNat_lt] at h
  omega

theorem Consistent.targets_get? (h : g.Consistent) (id : Id) :
    g.targets.get? id = if g.hasNode id then some (g.neighbors id) else none := by
  rw [← h.targets, neighbors]
  cases g.targets.get? id <;> rfl

theorem Consistent.degrees_get? (h : g.Consistent) (id : Id) :
    g.degrees.get? id = if g.hasNode id then some (g.outDegree id) else none := by
  rw [← h.degree, outDegree]
  cases g.degrees.get? id <;> rfl

/-- A table that has the same under the id of every node. -/
theorem get?_insertAll_nodes {β : Type} (g : Graph) (b : β) (id : Id) :
    (Table.empty.insertAll (g.nodes.entries.map fun p => (p.1, b)) : Table Id β).get? id =
      if g.hasNode id then some b else none := by
  have hkeys : ((g.nodes.entries.map fun p => (p.1, b)).map Prod.fst).Nodup := by
    rw [List.map_map]
    exact g.nodes.nodup_keys
  have hempty (p : Id × β) : (Table.empty : Table Id β).contains p.1 = false := by
    rw [Table.contains_eq, Table.get?_empty, Option.isSome_none]
  ext c
  rw [Table.get?_insertAll hkeys fun p _ => hempty p, Table.get?_empty, List.mem_map, hasNode_eq]
  constructor
  · rintro (hc | ⟨p, hp, heq⟩)
    · cases hc
    · cases heq
      rw [(mem_nodes g).1 hp]
      rfl
  · intro hif
    split at hif
    · next hn =>
      obtain ⟨n, hn⟩ := Option.isSome_iff_exists.1 hn
      cases hif
      exact Or.inr ⟨(id, n), (mem_nodes g).2 hn, rfl⟩
    · cases hif

/-- The graph made anew out of its nodes and edges. -/
def rebuild (g : Graph) : Graph :=
  ((Graph.empty.placeAll g.nodes.entries).attachAll g.edgeList).reserve g.nextId

theorem nodes_rebuild (g : Graph) : g.rebuild.nodes = g.nodes :=
  (nodes_attachAll _ _).1.trans (nodes_placeAll_entries g)

theorem outbox_rebuild (g : Graph) : g.rebuild.outbox = [] :=
  (nodes_attachAll _ _).2.trans (edges_placeAll _ _).2

theorem Consistent.edges_rebuild (hc : g.Consistent) : g.rebuild.edges = g.edges := by
  have hentries : (g.edgeList.map fun e => (e.id, e)) = g.edges.entries := by
    rw [Table.entries, ← edgeIds_eq hc, edgeList, List.map_prod_right_eq_zip]
  calc g.rebuild.edges = _ := edges_attachAll _ _
    _ = (Table.empty : Table Id Edge).insertAll g.edges.entries := by
        rw [(edges_placeAll _ _).1, hentries]
        rfl
    _ = g.edges := g.edges.insertAll_entries

theorem Consistent.nextId_rebuild (hc : g.Consistent) : g.rebuild.nextId = g.nextId := by
  generalize hA : (Graph.empty.placeAll g.nodes.entries).attachAll g.edgeList = A
  have hle : A.nextId ≤ g.nextId := by
    rw [← hA]
    apply nextId_attachAll
    · apply nextId_placeAll
      · exact UInt32.zero_le
      · exact fun _ => hc.lt_of_mem_nodes
    · exact fun _ => hc.lt_of_mem_edgeList
  rw [rebuild, hA]
  change (if A.nextId ≤ g.nextId then g.nextId else A.nextId) = g.nextId
  rw [if_pos hle]

theorem get?_targets_rebuild (g : Graph) (id : Id) : g.rebuild.targets.get? id =
    if g.hasNode id then some ((g.edgesFrom id).map Edge.target) else none := by
  have hempty : Graph.empty.targets = .empty := rfl
  refine (targets_attachAll _ _ id).trans ?_
  rw [targets_placeAll, hempty, get?_insertAll_nodes]
  split <;> rfl

theorem Consistent.degrees_rebuild (hc : g.Consistent) : g.rebuild.degrees = g.degrees := by
  apply Table.eq_of_get?
  intro id
  have hempty : Graph.empty.degrees = .empty := rfl
  have hfrom : (g.edgeList.filter (·.source == id)).length = g.outDegree id := by
    rw [hc.count, (hc.perm id).length_eq, List.length_map, edgesFrom]
  refine (degrees_attachAll _ _ id).trans ?_
  rw [degrees_placeAll, hempty, get?_insertAll_nodes, hfrom, hc.degrees_get?]
  split
  · rw [Option.map_some, Nat.zero_add]
  · rfl

/-- The targets come out in the order of the edges. -/
theorem Consistent.neighbors_rebuild (hc : g.Consistent) (id : Id) :
    g.rebuild.neighbors id = (g.edgesFrom id).map Edge.target := by
  rw [neighbors, get?_targets_rebuild]
  split
  · rfl
  · next hid =>
    have hnil := hc.neighbors_eq_nil (Bool.eq_false_iff.2 hid)
    have hperm := hc.perm id
    rw [hnil] at hperm
    rw [hperm.nil_eq]
    rfl

/-- All the rest comes out as it was, but for the events that wait. -/
theorem Consistent.rebuild_eq (hc : g.Consistent) :
    g.rebuild = { g with targets := g.rebuild.targets, outbox := [] } := by
  have hfields : g.rebuild = ⟨g.rebuild.nextId, g.rebuild.nodes, g.rebuild.degrees,
    g.rebuild.targets, g.rebuild.edges, g.rebuild.outbox⟩ := rfl
  rw [hfields, hc.nextId_rebuild, nodes_rebuild, hc.degrees_rebuild, hc.edges_rebuild,
    outbox_rebuild]

theorem Consistent.edgesFrom_rebuild (hc : g.Consistent) (id : Id) :
    g.rebuild.edgesFrom id = g.edgesFrom id := by
  rw [edgesFrom, edgeList, hc.edges_rebuild]
  rfl

theorem Consistent.aligned_rebuild (hc : g.Consistent) : g.rebuild.Aligned := by
  have hnode (id : Id) : g.rebuild.hasNode id = g.hasNode id := by
    rw [hasNode, nodes_rebuild, hasNode]
  have hdegree (id : Id) : g.rebuild.outDegree id = g.outDegree id := by
    rw [outDegree, hc.degrees_rebuild, outDegree]
  have hedge (id : Id) : g.rebuild.edge? id = g.edge? id := by
    rw [edge?, hc.edges_rebuild, edge?]
  have horder (id : Id) : g.rebuild.neighbors id = (g.rebuild.edgesFrom id).map Edge.target := by
    rw [hc.neighbors_rebuild, hc.edgesFrom_rebuild]
  refine ⟨?_, horder⟩
  constructor
  · intro id
    rw [hc.degrees_rebuild, hnode]
    exact hc.degree id
  · intro id
    rw [get?_targets_rebuild, hnode]
    split
    · next hid => exact hid.symm
    · next hid => exact (Bool.eq_false_iff.2 hid).symm
  · intro id
    rw [hdegree, hc.neighbors_rebuild, hc.count, (hc.perm id).length_eq]
  · intro id
    rw [horder]
  · intro id e he
    rw [hedge] at he
    exact hc.own id e he
  · intro id e he
    rw [hedge] at he
    rw [hnode, hnode]
    exact hc.ends id e he
  · intro id hid
    rw [hnode] at hid
    rw [hc.nextId_rebuild]
    exact hc.node_lt id hid
  · intro id hid
    rw [hasEdge_eq, hedge, ← hasEdge_eq] at hid
    rw [hc.nextId_rebuild]
    exact hc.edge_lt id hid

/-- The graph comes out as it was just if its targets are aligned. -/
theorem Consistent.rebuild_eq_iff (hc : g.Consistent) :
    g.rebuild = { g with outbox := [] } ↔ g.Aligned := by
  constructor
  · intro heq
    refine ⟨hc, fun n => ?_⟩
    rw [← hc.neighbors_rebuild, heq]
    rfl
  · intro h
    have htargets : g.rebuild.targets = g.targets := by
      apply Table.eq_of_get?
      intro id
      rw [get?_targets_rebuild, hc.targets_get?, h.inOrder]
    rw [hc.rebuild_eq, htargets]

end Graph

end DrawGraph
