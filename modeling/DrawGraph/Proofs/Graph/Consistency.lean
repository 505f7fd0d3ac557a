import DrawGraph.Graph.Basic
import DrawGraph.Table.View
import Mathlib.Data.List.Perm.Basic

/-!
# Consistency of the graph's tables

The tables of a graph say the same thing four times. Every node has a degree and a list of targets,
every edge is kept under its own id between nodes that exist, the targets of a node are those of
the edges that leave it, and the degree counts them. All ids in use lie below the counter. Adding
and erasing keeps the tables consistent and changes the views in one place each.
-/

namespace DrawGraph

namespace Table

universe u v

variable {κ : Type u} {α : Type v} [Ord κ]

theorem elems_insert_perm [Std.TransOrd κ] {t : Table κ α} {k : κ} (h : t.contains k = false)
    (a : α) :
    (t.insert k a).1.elems.toList.Perm (a :: t.elems.toList) := by
  have hk : ¬ t.holds (t.rank k) k = true := by simpa [contains] using h
  rw [insert, dif_neg hk, Array.toList_insertIdx]
  refine List.perm_insertIdx _ _ ?_
  rw [Array.length_toList, ← t.size_eq]
  exact t.rank_le k

theorem elems_erase_perm {t : Table κ α} {k : κ} {a : α}
    (h : t.get? k = some a) : t.elems.toList.Perm (a :: (t.erase k).elems.toList) := by
  unfold get? at h
  split at h
  · next hk =>
    obtain ⟨hlt, rfl⟩ := Array.getElem?_eq_some_iff.1 h
    rw [erase, dif_pos hk, Array.toList_eraseIdx]
    exact (List.getElem_cons_eraseIdx_perm (by simpa using hlt)).symm
  · cases h

theorem mem_elems [Std.TransOrd κ] [Std.LawfulEqOrd κ] {t : Table κ α} {a : α} :
    a ∈ t.elems.toList ↔ ∃ k, t.get? k = some a := by
  simp only [get?_eq_some_iff, List.mem_iff_getElem?, Array.getElem?_toList]
  constructor
  · rintro ⟨i, hi⟩
    have hlt : i < t.ids.size := t.size_eq ▸ (Array.getElem?_eq_some_iff.1 hi).1
    exact ⟨t.ids[i], i, Array.getElem?_eq_getElem hlt, hi⟩
  · rintro ⟨_, i, _, hi⟩
    exact ⟨i, hi⟩

/-- The keys are listed in order. -/
theorem pairwise_ids (t : Table Id α) : t.ids.toList.Pairwise (· < ·) := by
  rw [List.pairwise_iff_getElem]
  intro i j hi hj hij
  have hlt := t.increasing i j (by simpa using hj) hij
  simpa using Std.compare_eq_lt.1 hlt

end Table

namespace Graph

variable {g : Graph}

theorem hasNode_eq (g : Graph) (id : Id) : g.hasNode id = (g.node? id).isSome :=
  g.nodes.contains_eq id

theorem hasEdge_eq (g : Graph) (id : Id) : g.hasEdge id = (g.edge? id).isSome :=
  g.edges.contains_eq id

theorem mem_edgeList {e : Edge} : e ∈ g.edgeList ↔ ∃ id, g.edge? id = some e := Table.mem_elems

theorem mem_edgesFrom {e : Edge} {n : Id} :
    e ∈ g.edgesFrom n ↔ (∃ id, g.edge? id = some e) ∧ e.source = n := by
  simp [edgesFrom, mem_edgeList]

/-- The tables of the graph agree with each other. -/
structure Consistent (g : Graph) : Prop where
  degree : ∀ id, (g.degrees.get? id).isSome = g.hasNode id
  targets : ∀ id, (g.targets.get? id).isSome = g.hasNode id
  count : ∀ id, g.outDegree id = (g.neighbors id).length
  perm : ∀ id, (g.neighbors id).Perm ((g.edgesFrom id).map Edge.target)
  own : ∀ id e, g.edge? id = some e → e.id = id
  ends : ∀ id e, g.edge? id = some e → g.hasNode e.source ∧ g.hasNode e.target
  node_lt : ∀ id, g.hasNode id → id < g.nextId
  edge_lt : ∀ id, g.hasEdge id → id < g.nextId

namespace Consistent

theorem empty : Graph.empty.Consistent where
  degree _ := by simp [Graph.empty, hasNode_eq, node?]
  targets _ := by simp [Graph.empty, hasNode_eq, node?]
  count _ := by simp [Graph.empty, outDegree, neighbors]
  perm id := by
    have he : Graph.empty.edgesFrom id = [] := rfl
    have hn : Graph.empty.neighbors id = [] := by simp [Graph.empty, neighbors]
    rw [he, hn, List.map_nil]
  own _ _ h := by simp [Graph.empty, edge?] at h
  ends _ _ h := by simp [Graph.empty, edge?] at h
  node_lt _ h := by simp [Graph.empty, hasNode_eq, node?] at h
  edge_lt _ h := by simp [Graph.empty, hasEdge_eq, edge?] at h

theorem withOutbox (h : g.Consistent) (events : List Event) :
    ({ g with outbox := events } : Graph).Consistent where
  degree := h.degree
  targets := h.targets
  count := h.count
  perm := h.perm
  own := h.own
  ends := h.ends
  node_lt := h.node_lt
  edge_lt := h.edge_lt

theorem mem_neighbors (h : g.Consistent) {m n : Id} :
    m ∈ g.neighbors n ↔ ∃ e ∈ g.edgesFrom n, e.target = m := by
  rw [(h.perm n).mem_iff, List.mem_map]

theorem hasNode_of_mem_neighbors (h : g.Consistent) {m n : Id} (hm : m ∈ g.neighbors n) :
    g.hasNode n ∧ g.hasNode m := by
  obtain ⟨e, he, rfl⟩ := h.mem_neighbors.1 hm
  obtain ⟨⟨id, hid⟩, rfl⟩ := mem_edgesFrom.1 he
  exact h.ends id e hid

theorem neighbors_eq_nil (h : g.Consistent) {n : Id} (hn : g.hasNode n = false) :
    g.neighbors n = [] := by
  rw [List.eq_nil_iff_forall_not_mem]
  intro m hm
  simp [(h.hasNode_of_mem_neighbors hm).1] at hn

theorem outDegree_eq_zero_iff (h : g.Consistent) {n : Id} :
    g.outDegree n = 0 ↔ g.neighbors n = [] := by
  rw [h.count, List.length_eq_zero_iff]

/-- The next id is new, to the nodes as to the edges. -/
theorem fresh (h : g.Consistent) : g.hasNode g.nextId = false ∧ g.hasEdge g.nextId = false := by
  constructor
  · rw [Bool.eq_false_iff]
    exact fun hn => UInt32.lt_irrefl _ (h.node_lt _ hn)
  · rw [Bool.eq_false_iff]
    exact fun he => UInt32.lt_irrefl _ (h.edge_lt _ he)

end Consistent

end Graph

end DrawGraph
