import DrawGraph.Proofs.Graph.Change
import Mathlib.Data.List.Sort

/-!
# Targets in the order of their edges

The list of the edges that leave a node is sorted by their ids, hence known by its members. The
targets of a node are aligned with it as long as every edge that is erased gives up the target that
it had added: of several edges to one target it is the oldest, or no edge to another target stands
between. An edge put back comes last among the targets, wherever its id belongs.
-/

namespace DrawGraph

namespace Graph

variable {g g' : Graph} {id : Id}

/-- The targets of a node are those of its edges in id order. -/
structure Aligned (g : Graph) : Prop where
  consistent : g.Consistent
  inOrder : ∀ n, g.neighbors n = (g.edgesFrom n).map Edge.target

/-- The targets of a node are those of its edges in id order, each once. -/
structure Ordered (g : Graph) : Prop where
  consistent : g.Consistent
  inOrder : ∀ n, g.neighbors n = (g.edgesFrom n).map Edge.target
  nodup : ∀ n, (g.neighbors n).Nodup

theorem Ordered.aligned (h : g.Ordered) : g.Aligned := ⟨h.consistent, h.inOrder⟩

/-! ## The edges that leave a node -/

theorem pairwise_edgesFrom (hc : g.Consistent) (n : Id) :
    (g.edgesFrom n).Pairwise fun e f => e.id < f.id :=
  (pairwise_edgeList hc).filter _

theorem ne_of_id_lt {e f : Edge} (h : e.id < f.id) : e ≠ f := by
  rintro rfl
  exact UInt32.lt_irrefl _ h

/-- A list that is sorted by id and has the edges of a node as its members is the list of these. -/
theorem edgesFrom_eq (hc : g.Consistent) {n : Id} {es : List Edge}
    (hsorted : es.Pairwise fun e f => e.id < f.id)
    (hmem : ∀ e, e ∈ es ↔ (∃ i, g.edge? i = some e) ∧ e.source = n) : g.edgesFrom n = es := by
  have hsorted' := pairwise_edgesFrom hc n
  have hperm : (g.edgesFrom n).Perm es := by
    rw [List.perm_ext_iff_of_nodup (hsorted'.imp ne_of_id_lt) (hsorted.imp ne_of_id_lt)]
    intro e
    rw [mem_edgesFrom, hmem]
  refine hperm.eq_of_pairwise ?_ hsorted' hsorted
  intro e f _ _ hef hfe
  exact absurd (UInt32.lt_trans hef hfe) (UInt32.lt_irrefl _)

theorem AddsNode.edgesFrom {n : Node} (ha : g.AddsNode n id g') (hc : g.Consistent) (k : Id) :
    g'.edgesFrom k = g.edgesFrom k := by
  apply edgesFrom_eq ha.consistent (pairwise_edgesFrom hc k)
  intro e
  rw [mem_edgesFrom]
  simp only [ha.edge?]

theorem edge?_of_mem_edgesFrom (hc : g.Consistent) {n : Id} {e : Edge} (he : e ∈ g.edgesFrom n) :
    g.edge? e.id = some e := by
  obtain ⟨⟨i, hi⟩, _⟩ := mem_edgesFrom.1 he
  rwa [hc.own i e hi]

theorem id_ne_of_mem_edgesFrom (hc : g.Consistent) {n i : Id} {e : Edge} (he : e ∈ g.edgesFrom n)
    (hnew : g.hasEdge i = false) : e.id ≠ i := by
  rintro rfl
  rw [hasEdge_eq, edge?_of_mem_edgesFrom hc he] at hnew
  cases hnew

/-- The edges of a node before and after an id that none of them has. -/
theorem edgesFrom_eq_append (hc : g.Consistent) {i : Id} (hnew : g.hasEdge i = false) (n : Id) :
    g.edgesFrom n =
      (g.edgesFrom n).filter (fun f => f.id < i) ++ (g.edgesFrom n).filter fun f => i < f.id := by
  have hsorted := pairwise_edgesFrom hc n
  apply edgesFrom_eq hc
  · refine List.pairwise_append.2 ⟨hsorted.filter _, hsorted.filter _, ?_⟩
    intro e he f hf
    have hlt := of_decide_eq_true (List.mem_filter.1 he).2
    exact UInt32.lt_trans hlt (of_decide_eq_true (List.mem_filter.1 hf).2)
  · intro e
    rw [List.mem_append, List.mem_filter, List.mem_filter, ← and_or_left, mem_edgesFrom,
      and_iff_left_iff_imp]
    intro he
    have hne := id_ne_of_mem_edgesFrom hc (mem_edgesFrom.2 he) hnew
    simpa using UInt32.lt_or_lt_of_ne hne

/-- An edge that comes in under a new id stands among the others where its id belongs. -/
theorem edgesFrom_insert (hc : g.Consistent) (hc' : g'.Consistent) {e : Edge}
    (hnew : g.hasEdge e.id = false)
    (hedge : ∀ j, g'.edge? j = if j = e.id then some e else g.edge? j) (k : Id) :
    g'.edgesFrom k =
      if k = e.source then (g.edgesFrom k).filter (fun f => f.id < e.id) ++
        e :: (g.edgesFrom k).filter (fun f => e.id < f.id)
      else g.edgesFrom k := by
  have hmem (f : Edge) : (∃ i, g'.edge? i = some f) ↔ f = e ∨ ∃ i, g.edge? i = some f := by
    constructor
    · rintro ⟨i, hi⟩
      rw [hedge] at hi
      split at hi
      · exact Or.inl (Option.some.inj hi).symm
      · exact Or.inr ⟨i, hi⟩
    · rintro (rfl | ⟨i, hi⟩)
      · exact ⟨f.id, by rw [hedge, if_pos rfl]⟩
      · refine ⟨i, ?_⟩
        rw [hedge, if_neg, hi]
        rintro rfl
        rw [hasEdge_eq, hi] at hnew
        cases hnew
  have hsorted := pairwise_edgesFrom hc k
  apply edgesFrom_eq hc'
  · split
    · refine List.pairwise_append.2 ⟨hsorted.filter _, ?_, ?_⟩
      · refine List.pairwise_cons.2 ⟨?_, hsorted.filter _⟩
        exact fun f hf => of_decide_eq_true (List.mem_filter.1 hf).2
      · intro a ha f hf
        have hlt := of_decide_eq_true (List.mem_filter.1 ha).2
        rcases List.mem_cons.1 hf with rfl | hf
        · exact hlt
        · exact UInt32.lt_trans hlt (of_decide_eq_true (List.mem_filter.1 hf).2)
    · exact hsorted
  · intro f
    rw [hmem]
    split
    · next hk =>
      rw [List.mem_append, List.mem_cons, or_left_comm, ← List.mem_append,
        ← edgesFrom_eq_append hc hnew, mem_edgesFrom, or_and_right]
      have hsource : f = e → f.source = k := fun hf => by rw [hf, hk]
      rw [and_iff_left_of_imp hsource]
    · next hk =>
      rw [mem_edgesFrom, or_and_right]
      have hother : ¬ (f = e ∧ f.source = k) := fun ⟨hf, hs⟩ => hk (by rw [← hs, hf])
      rw [or_iff_right hother]

theorem AddsEdge.edgesFrom {e : Edge} (ha : g.AddsEdge e g') (hc : g.Consistent) (k : Id) :
    g'.edgesFrom k = if k = e.source then g.edgesFrom k ++ [e] else g.edgesFrom k := by
  have hlt : ∀ f ∈ g.edgesFrom k, f.id < e.id := by
    intro f hf
    rw [ha.id_eq]
    apply hc.edge_lt
    rw [hasEdge_eq, edge?_of_mem_edgesFrom hc hf]
    rfl
  have hbefore : (g.edgesFrom k).filter (fun f => f.id < e.id) = g.edgesFrom k :=
    List.filter_eq_self.2 fun f hf => decide_eq_true (hlt f hf)
  have hafter : (g.edgesFrom k).filter (fun f => e.id < f.id) = [] := by
    apply List.filter_eq_nil_iff.2
    intro f hf hgt
    exact UInt32.lt_irrefl _ (UInt32.lt_trans (hlt f hf) (of_decide_eq_true hgt))
  rw [edgesFrom_insert hc ha.consistent ha.fresh ha.edge?, hbefore, hafter]

theorem ErasesEdge.edgesFrom {e : Edge} (hg : g.ErasesEdge e g') (hc : g.Consistent)
    (he : g.edge? id = some e) (k : Id) : g'.edgesFrom k = (g.edgesFrom k).filter (· ≠ e) := by
  have hown : e.id = id := hc.own id e he
  apply edgesFrom_eq hg.consistent ((pairwise_edgesFrom hc k).filter _)
  intro f
  rw [List.mem_filter, mem_edgesFrom]
  have hedge : (∃ i, g'.edge? i = some f) ↔ (∃ i, g.edge? i = some f) ∧ f ≠ e := by
    constructor
    · rintro ⟨i, hi⟩
      rw [hg.edge?] at hi
      split at hi
      · cases hi
      · next hne =>
        refine ⟨⟨i, hi⟩, ?_⟩
        rintro rfl
        exact hne (hc.own i f hi).symm
    · rintro ⟨⟨i, hi⟩, hne⟩
      refine ⟨i, ?_⟩
      rw [hg.edge?, if_neg, hi]
      rintro rfl
      rw [hown, he] at hi
      exact hne (Option.some.inj hi).symm
  rw [hedge]
  simp only [ne_eq, decide_not, Bool.not_eq_eq_eq_not, Bool.not_true, decide_eq_false_iff_not]
  exact ⟨fun ⟨⟨hi, hs⟩, hne⟩ => ⟨⟨hi, hne⟩, hs⟩, fun ⟨⟨hi, hne⟩, hs⟩ => ⟨⟨hi, hs⟩, hne⟩⟩

theorem ErasesNode.edgesFrom (hg : g.ErasesNode id g') (hc : g.Consistent) (k : Id) :
    g'.edgesFrom k = (g.edgesFrom k).filter fun e => !e.touches id := by
  apply edgesFrom_eq hg.consistent ((pairwise_edgesFrom hc k).filter _)
  intro f
  rw [List.mem_filter, mem_edgesFrom]
  simp only [hg.edge?, Option.filter_eq_some_iff, exists_and_right]
  exact ⟨fun ⟨⟨hi, hs⟩, ht⟩ => ⟨⟨hi, ht⟩, hs⟩, fun ⟨⟨hi, ht⟩, hs⟩ => ⟨⟨hi, hs⟩, ht⟩⟩

/-! ## Targets that stay aligned -/

theorem Aligned.empty : Graph.empty.Aligned where
  consistent := .empty
  inOrder n := by
    have he : Graph.empty.edgesFrom n = [] := rfl
    have hn : Graph.empty.neighbors n = [] := by simp [Graph.empty, neighbors]
    rw [he, hn, List.map_nil]

theorem Aligned.withOutbox (h : g.Aligned) (events : List Event) :
    ({ g with outbox := events } : Graph).Aligned where
  consistent := h.consistent.withOutbox events
  inOrder := h.inOrder

theorem Aligned.setNumber (h : g.Aligned) (id : Id) (x : Float32) :
    ({ g with nodes := g.nodes.modify id fun n => { n with value := x } } : Graph).Aligned where
  consistent := h.consistent.setNumber id x
  inOrder := h.inOrder

theorem Aligned.addsNode (h : g.Aligned) {n : Node} (ha : g.AddsNode n id g') : g'.Aligned where
  consistent := ha.consistent
  inOrder k := by rw [ha.neighbors, ha.edgesFrom h.consistent, h.inOrder]

theorem Aligned.addsEdge (h : g.Aligned) {e : Edge} (ha : g.AddsEdge e g') : g'.Aligned where
  consistent := ha.consistent
  inOrder k := by
    rw [ha.neighbors, ha.edgesFrom h.consistent, h.inOrder]
    split
    · rw [List.map_append, List.map_singleton]
    · rfl

theorem Aligned.erasesNode (h : g.Aligned) (hg : g.ErasesNode id g') : g'.Aligned where
  consistent := hg.consistent
  inOrder k := by
    rw [hg.neighbors, hg.edgesFrom h.consistent]
    split
    · next hk =>
      rw [List.filter_eq_nil_iff.2, List.map_nil]
      intro f hf
      simp [Edge.touches, (mem_edgesFrom.1 hf).2, hk]
    · next hk =>
      rw [h.inOrder, List.filter_map]
      apply congrArg
      apply List.filter_congr
      intro f hf
      have hs : (f.source == id) = false := by
        rw [(mem_edgesFrom.1 hf).2]
        simpa using hk
      simp [Edge.touches, hs, beq_eq_decide]

/-! ## Edges erased and put back -/

/-- Between the edge and an older one to the same target its source has no edge to another. -/
def Foremost (g : Graph) (e : Edge) : Prop :=
  ∀ older ∈ g.edgesFrom e.source, older.target = e.target →
    ∀ f ∈ g.edgesFrom e.source, older.id < f.id → f.id < e.id → f.target = e.target

/-- Of edges to different targets the edge has the greatest id. -/
def Hindmost (g : Graph) (e : Edge) : Prop :=
  ∀ f ∈ g.edgesFrom e.source, e.id < f.id → f.target = e.target

/-- Moving an element past a list changes nothing just if the list holds no other. -/
theorem append_singleton_eq_cons_iff {α : Type} {x : α} {l : List α} :
    l ++ [x] = x :: l ↔ ∀ y ∈ l, y = x := by
  induction l with
  | nil => simp
  | cons y l ih =>
      rw [List.cons_append, List.cons.injEq, List.forall_mem_cons]
      constructor
      · rintro ⟨rfl, h⟩
        exact ⟨rfl, ih.1 h⟩
      · rintro ⟨rfl, h⟩
        exact ⟨rfl, ih.2 h⟩

theorem filter_ne_of_pairwise (before : List Edge) {after : List Edge} {e : Edge}
    (hsorted : (before ++ e :: after).Pairwise fun e f => e.id < f.id) :
    (before ++ e :: after).filter (· ≠ e) = before ++ after := by
  obtain ⟨_, hafter, hacross⟩ := List.pairwise_append.1 hsorted
  have hlater := (List.pairwise_cons.1 hafter).1
  rw [List.filter_append, List.filter_cons_of_neg (by simp), List.filter_eq_self.2,
    List.filter_eq_self.2]
  · exact fun f hf => by simpa using (ne_of_id_lt (hlater f hf)).symm
  · exact fun f hf => by simpa using ne_of_id_lt (hacross f hf e List.mem_cons_self)

/-- Erasing a target erases that of the edge just if the edge is the oldest to it, or only edges to
it come from the oldest on. -/
theorem erase_target_iff {es : List Edge} {e : Edge}
    (hsorted : es.Pairwise fun e f => e.id < f.id) (he : e ∈ es) :
    (es.map Edge.target).erase e.target = (es.filter (· ≠ e)).map Edge.target ↔
      ∀ older ∈ es, older.target = e.target →
        ∀ f ∈ es, older.id < f.id → f.id < e.id → f.target = e.target := by
  induction es with
  | nil => cases he
  | cons a es ih =>
      obtain ⟨ha, hsorted'⟩ := List.pairwise_cons.1 hsorted
      rcases List.mem_cons.1 he with rfl | hmem
      · -- no edge is older than `e`
        have hkeep : (e :: es).filter (· ≠ e) = es := filter_ne_of_pairwise [] hsorted
        refine iff_of_true ?_ ?_
        · rw [List.map_cons, List.erase_cons_head, hkeep]
        · intro older _ _ f hf _ hfe
          rcases List.mem_cons.1 hf with rfl | hf
          · exact absurd hfe (UInt32.lt_irrefl _)
          · exact absurd (UInt32.lt_trans hfe (ha f hf)) (UInt32.lt_irrefl _)
      have hne : a ≠ e := ne_of_id_lt (ha e hmem)
      rw [List.filter_cons_of_pos (by simpa using hne), List.map_cons, List.map_cons]
      by_cases hat : a.target = e.target
      · -- `a` is the oldest, so the edges between are all those before `e`
        obtain ⟨before, after, rfl⟩ := List.append_of_mem hmem
        obtain ⟨_, hafter, hacross⟩ := List.pairwise_append.1 hsorted'
        have hlater := (List.pairwise_cons.1 hafter).1
        rw [hat, List.erase_cons_head, filter_ne_of_pairwise before hsorted', List.map_append,
          List.map_cons, List.map_append, ← List.cons_append, List.append_cons,
          List.append_left_inj, append_singleton_eq_cons_iff, List.forall_mem_map]
        constructor
        · intro hall older _ _ f hf _ hfe
          rcases List.mem_cons.1 hf with rfl | hf
          · exact hat
          rcases List.mem_append.1 hf with hf | hf
          · exact hall f hf
          rcases List.mem_cons.1 hf with rfl | hf
          · rfl
          · exact absurd (UInt32.lt_trans hfe (hlater f hf)) (UInt32.lt_irrefl _)
        · intro hall f hf
          have hmem := List.mem_append_left (e :: after) hf
          exact hall a List.mem_cons_self hat f (List.mem_cons_of_mem _ hmem) (ha f hmem)
            (hacross f hf e List.mem_cons_self)
      · rw [List.erase_cons_tail (by simpa using hat), List.cons_inj_right, ih hsorted' hmem]
        constructor
        · intro hall older holder htarget f hf hlt hfe
          rcases List.mem_cons.1 holder with rfl | hlater
          · exact absurd htarget hat
          rcases List.mem_cons.1 hf with rfl | hf
          · exact absurd (UInt32.lt_trans hlt (ha older hlater)) (UInt32.lt_irrefl _)
          · exact hall older hlater htarget f hf hlt hfe
        · intro hall older holder htarget f hf
          exact hall older (List.mem_cons_of_mem _ holder) htarget f (List.mem_cons_of_mem _ hf)

theorem Aligned.erasesEdge_iff (h : g.Aligned) {e : Edge} (he : g.edge? id = some e)
    (hg : g.ErasesEdge e g') : g'.Aligned ↔ g.Foremost e := by
  have hsorted := pairwise_edgesFrom h.consistent e.source
  have hmem : e ∈ g.edgesFrom e.source := mem_edgesFrom.2 ⟨⟨id, he⟩, rfl⟩
  rw [Foremost, ← erase_target_iff hsorted hmem]
  constructor
  · intro h'
    have hn := h'.inOrder e.source
    rwa [hg.neighbors, if_pos rfl, hg.edgesFrom h.consistent he, h.inOrder] at hn
  · intro herase
    refine ⟨hg.consistent, fun k => ?_⟩
    rw [hg.neighbors, hg.edgesFrom h.consistent he, h.inOrder]
    split
    · next hk => rw [hk, herase]
    · next hk =>
      rw [List.filter_eq_self.2]
      intro f hf
      have hne : f ≠ e := by
        rintro rfl
        exact hk (mem_edgesFrom.1 hf).2.symm
      simpa using hne

/-! ## Targets without repetition -/

theorem Ordered.empty : Graph.empty.Ordered where
  consistent := .empty
  inOrder := Aligned.empty.inOrder
  nodup n := by
    have hn : Graph.empty.neighbors n = [] := by simp [Graph.empty, neighbors]
    rw [hn]
    exact List.nodup_nil

theorem Ordered.withOutbox (h : g.Ordered) (events : List Event) :
    ({ g with outbox := events } : Graph).Ordered where
  consistent := h.consistent.withOutbox events
  inOrder := h.inOrder
  nodup := h.nodup

theorem Ordered.setNumber (h : g.Ordered) (id : Id) (x : Float32) :
    ({ g with nodes := g.nodes.modify id fun n => { n with value := x } } : Graph).Ordered where
  consistent := h.consistent.setNumber id x
  inOrder := h.inOrder
  nodup := h.nodup

theorem Ordered.addsNode (h : g.Ordered) {n : Node} (ha : g.AddsNode n id g') : g'.Ordered where
  consistent := ha.consistent
  inOrder := (h.aligned.addsNode ha).inOrder
  nodup k := by
    rw [ha.neighbors]
    exact h.nodup k

/-- An edge to a target that its source does not have yet. -/
theorem Ordered.addsEdge (h : g.Ordered) {e : Edge} (ha : g.AddsEdge e g')
    (hnew : e.target ∉ g.neighbors e.source) : g'.Ordered where
  consistent := ha.consistent
  inOrder := (h.aligned.addsEdge ha).inOrder
  nodup k := by
    rw [ha.neighbors]
    split
    · next hk =>
      rw [← List.concat_eq_append]
      apply (h.nodup k).concat
      rwa [hk]
    · exact h.nodup k

/-- No edge has another beside it, so the one erased is the oldest to its target. -/
theorem Ordered.foremost (h : g.Ordered) {e : Edge} (he : g.edge? id = some e) : g.Foremost e := by
  have hmem : e ∈ g.edgesFrom e.source := mem_edgesFrom.2 ⟨⟨id, he⟩, rfl⟩
  have hnodup := h.nodup e.source
  rw [h.inOrder] at hnodup
  intro older holder htarget f _ hlt hfe
  obtain rfl := List.inj_on_of_nodup_map hnodup holder hmem htarget
  exact absurd (UInt32.lt_trans hlt hfe) (UInt32.lt_irrefl _)

theorem Ordered.erasesEdge (h : g.Ordered) {e : Edge} (he : g.edge? id = some e)
    (hg : g.ErasesEdge e g') : g'.Ordered where
  consistent := hg.consistent
  inOrder := ((h.aligned.erasesEdge_iff he hg).2 (h.foremost he)).inOrder
  nodup k := by
    rw [hg.neighbors]
    split
    · exact (h.nodup k).erase _
    · exact h.nodup k

theorem Ordered.erasesNode (h : g.Ordered) (hg : g.ErasesNode id g') : g'.Ordered where
  consistent := hg.consistent
  inOrder := (h.aligned.erasesNode hg).inOrder
  nodup k := by
    rw [hg.neighbors]
    split
    · exact List.nodup_nil
    · exact (h.nodup k).filter _

end Graph

end DrawGraph
