import DrawGraph.Proofs.Graph.Change

/-!
# Links that are cut

An edge that goes is a link that is cut or no link, and each link that is cut is told of in an event
of its own, in the order in which the links go. This needs no tables that agree. Where they do, what
goes with a node are the links that touch it, in the order of their ids.
-/

namespace DrawGraph

def Edge.cutEvent (e : Edge) : Event := .linkDeleted e.source e.target

namespace Graph

variable {g g' g'' : Graph} {cut cut' es es' : List Edge} {id : Id}

def links (g : Graph) : List Edge := g.edgeList.filter (·.isExternal)

/-- From `g` to `g'` the links in `cut` are cut, and told of in this order. -/
structure Cuts (g : Graph) (cut : List Edge) (g' : Graph) : Prop where
  links : g.links.Perm (cut ++ g'.links)
  outbox : g'.outbox = g.outbox ++ cut.map Edge.cutEvent

theorem Cuts.of_perm (hlinks : g'.links.Perm g.links) (houtbox : g'.outbox = g.outbox) :
    g.Cuts [] g' :=
  ⟨hlinks.symm, by rw [houtbox, List.map_nil, List.append_nil]⟩

theorem Cuts.refl (g : Graph) : g.Cuts [] g := .of_perm (.refl _) rfl

theorem Cuts.trans (h : g.Cuts cut g') (h' : g'.Cuts cut' g'') : g.Cuts (cut ++ cut') g'' where
  links := by
    rw [List.append_assoc]
    exact h.links.trans (h'.links.append_left cut)
  outbox := by rw [h'.outbox, h.outbox, List.append_assoc, List.map_append]

theorem Cuts.subset (h : g.Cuts cut g') : g'.links ⊆ g.links := fun _ he =>
  h.links.mem_iff.2 (List.mem_append_right _ he)

/-! ## One call -/

theorem cuts_addNode {n : Node} (h : g.addNode n = .ok (id, g')) : g.Cuts [] g' := by
  obtain ⟨_, _, rfl⟩ := eq_of_addNode h
  exact .of_perm (.refl _) rfl

/-- An edge that is no link leaves the links what they are, even if its id is taken. -/
theorem links_attach {e : Edge} (he : e.isExternal = false) : (g.attach e).links.Perm g.links := by
  cases htaken : g.hasEdge e.id with
  | true =>
      have hsame : (g.attach e).edges = g.edges :=
        congrArg Prod.fst (Table.insert_of_holds g.edges htaken e)
      rw [links, edgeList, hsame]
      exact .refl _
  | false =>
      have hperm := (edgeList_attach htaken).filter (·.isExternal)
      rwa [List.filter_cons_of_neg (by simp [he])] at hperm

theorem cuts_addEdge {source target : Id} (h : g.addEdge source target .internal = .ok (id, g')) :
    g.Cuts [] g' := by
  obtain ⟨_, _, _, g₁, rfl, rfl⟩ := eq_of_addEdge h
  exact .of_perm (links_attach rfl) rfl

/-! ## Edges that go -/

/-- Edges go, and those that are links are told of in this order. -/
structure Drops (g : Graph) (es : List Edge) (g' : Graph) : Prop where
  edges : g.edgeList.Perm (es ++ g'.edgeList)
  outbox : g'.outbox = g.outbox ++ (es.filter (·.isExternal)).map Edge.cutEvent

theorem Drops.refl (g : Graph) : g.Drops [] g := ⟨.refl _, (List.append_nil _).symm⟩

theorem Drops.trans (h : g.Drops es g') (h' : g'.Drops es' g'') : g.Drops (es ++ es') g'' where
  edges := by
    rw [List.append_assoc]
    exact h.edges.trans (h'.edges.append_left es)
  outbox := by
    rw [h'.outbox, h.outbox, List.append_assoc, List.filter_append, List.map_append]

theorem Drops.cuts (h : g.Drops es g') : g.Cuts (es.filter (·.isExternal)) g' where
  links := by
    have hperm := h.edges.filter (·.isExternal)
    rwa [List.filter_append] at hperm
  outbox := h.outbox

theorem drops_eraseEdge {e : Edge} (h : g.eraseEdge id = .ok (e, g')) : g.Drops [e] g' := by
  unfold eraseEdge at h
  split at h
  · cases h
  · next f hf =>
    obtain ⟨rfl, rfl⟩ := Prod.mk.inj (Except.ok.inj h)
    have hperm := Table.elems_erase_perm hf
    split
    · next hlink => exact ⟨hperm, by rw [List.filter_cons_of_pos hlink]; rfl⟩
    · next hlink =>
      refine ⟨hperm, ?_⟩
      rw [List.filter_cons_of_neg hlink]
      exact (List.append_nil _).symm

theorem drops_eraseEdges {ids : List Id} (h : g.eraseEdges ids = .ok g') :
    ∃ es, g.Drops es g' := by
  induction ids generalizing g with
  | nil =>
      cases h
      exact ⟨[], .refl _⟩
  | cons i ids ih =>
      rw [eraseEdges] at h
      cases hi : g.eraseEdge i with
      | error err => rw [hi] at h; cases h
      | ok p =>
          rw [hi] at h
          obtain ⟨es, hes⟩ := ih h
          exact ⟨_, (drops_eraseEdge (e := p.1) hi).trans hes⟩

/-- What goes when edges are erased by their ids are these edges. -/
theorem Consistent.drops_eraseEdges (hc : g.Consistent) (hnodup : (es.map Edge.id).Nodup)
    (hes : ∀ e ∈ es, g.edge? e.id = some e) (h : g.eraseEdges (es.map Edge.id) = .ok g') :
    g.Drops es g' := by
  induction es generalizing g with
  | nil =>
      cases h
      exact .refl _
  | cons e es ih =>
      obtain ⟨hnew, hnodup⟩ := List.nodup_cons.1 hnodup
      obtain ⟨g₁, hg₁, h₁⟩ := hc.eraseEdge (hes e List.mem_cons_self)
      have hrest (f : Edge) (hf : f ∈ es) : g₁.edge? f.id = some f := by
        rw [h₁.edge?, if_neg, hes f (List.mem_cons_of_mem _ hf)]
        exact fun heq => hnew (heq ▸ List.mem_map_of_mem hf)
      rw [List.map_cons, Graph.eraseEdges, hg₁] at h
      exact (drops_eraseEdge hg₁).trans (ih h₁.consistent hnodup hrest h)

theorem eraseNode_eq_ok {n : Node} (h : g.eraseNode id = .ok (n, g')) :
    ∃ g₁, g.eraseEdges ((g.edgeList.filter (·.touches id)).map (·.id)) = .ok g₁ ∧
      g' = g₁.displace id := by
  unfold eraseNode at h
  split at h
  · cases h
  · cases hedges : g.eraseEdges ((g.edgeList.filter (·.touches id)).map (·.id)) with
    | error err => rw [hedges] at h; cases h
    | ok g₁ =>
        rw [hedges] at h
        cases h
        exact ⟨g₁, rfl, rfl⟩

theorem cuts_eraseNode {n : Node} (h : g.eraseNode id = .ok (n, g')) : ∃ cut, g.Cuts cut g' := by
  obtain ⟨g₁, hedges, rfl⟩ := eraseNode_eq_ok h
  obtain ⟨es, hes⟩ := drops_eraseEdges hedges
  exact ⟨_, hes.cuts.links, hes.outbox⟩

theorem Consistent.edge?_id (hc : g.Consistent) {e : Edge} (he : e ∈ g.edgeList) :
    g.edge? e.id = some e := by
  obtain ⟨i, hi⟩ := mem_edgeList.1 he
  rwa [hc.own i e hi]

/-- With a node go the edges that touch it, in the order of their ids. -/
theorem Consistent.drops_eraseNode (hc : g.Consistent) {n : Node}
    (h : g.eraseNode id = .ok (n, g')) : g.Drops (g.edgeList.filter (·.touches id)) g' := by
  obtain ⟨g₁, hedges, rfl⟩ := eraseNode_eq_ok h
  have hnodup := (nodup_edgeIds hc).sublist
    ((List.filter_sublist (p := (·.touches id)) (l := g.edgeList)).map Edge.id)
  have hdrops := hc.drops_eraseEdges hnodup
    (fun e he => hc.edge?_id (List.mem_filter.1 he).1) hedges
  exact ⟨hdrops.edges, hdrops.outbox⟩

end Graph

end DrawGraph
