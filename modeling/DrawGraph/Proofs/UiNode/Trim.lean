import DrawGraph.Proofs.UiNode.Cutting
import DrawGraph.Proofs.UiNode.Pins

/-!
# What goes when pins are dropped

Dropping nodes takes away these nodes with their boxes and the edges that touch them, and nothing
else. A draw node that loses its shader drops the inputs for its variables and has no index any
more. The links that go are those that touched what was dropped.
-/

namespace DrawGraph

namespace Graph

variable {g : Graph} {f : Edge}

theorem Consistent.mem_links (hc : g.Consistent) :
    f ∈ g.links ↔ g.edge? f.id = some f ∧ f.kind = .external := by
  rw [links, List.mem_filter, Edge.isExternal, beq_iff_eq]
  exact and_congr_left fun _ => ⟨hc.edge?_id, fun h => mem_edgeList.2 ⟨_, h⟩⟩

theorem Consistent.nodup_links (hc : g.Consistent) : g.links.Nodup :=
  (List.Nodup.of_map _ (nodup_edgeIds hc)).filter _

end Graph

namespace Scene

open DrawGraph.Graph

/-- `s'` is `s` without the nodes in `gone`, and with no index in the pins in `reset`. -/
structure Trims (gone reset : List Id) (s s' : Scene) : Prop where
  consistent : s'.graph.Consistent
  node? : ∀ j, s'.graph.node? j = if j ∈ gone then none else (s.graph.node? j).map fun n =>
    if j ∈ reset then { n with value := Binary32.ofInt32 noIndex } else n
  neighbors : ∀ j, s'.graph.neighbors j =
    if j ∈ gone then [] else (s.graph.neighbors j).filter (· ∉ gone)
  edge? : ∀ i f, s'.graph.edge? i = some f ↔
    s.graph.edge? i = some f ∧ f.source ∉ gone ∧ f.target ∉ gone
  box : ∀ j, s'.values.get? j = if j ∈ gone then none else if j ∈ reset then some (.int noIndex)
    else s.values.get? j
  nextId : s'.graph.nextId = s.graph.nextId
  services : s'.services = s.services

variable {gone gone' reset reset' : List Id} {s s' s'' : Scene} {id : Id} {cut : List Edge}
  {f : Edge}

theorem Trims.refl (hc : s.graph.Consistent) : Trims [] [] s s where
  consistent := hc
  node? j := by simp
  neighbors j := by simp
  edge? i f := by simp
  box j := by simp
  nextId := rfl
  services := rfl

/-- Only which nodes are gone and which pins have lost their index counts. -/
theorem Trims.congr (h : Trims gone reset s s') (hgone : ∀ j, j ∈ gone ↔ j ∈ gone')
    (hreset : ∀ j, j ∈ reset ↔ j ∈ reset') : Trims gone' reset' s s' where
  consistent := h.consistent
  node? j := by simpa only [hgone, hreset] using h.node? j
  neighbors j := by simpa only [hgone] using h.neighbors j
  edge? i f := by simpa only [hgone] using h.edge? i f
  box j := by simpa only [hgone, hreset] using h.box j
  nextId := h.nextId
  services := h.services

theorem Trims.trans (h : Trims gone reset s s') (h' : Trims gone' reset' s' s'')
    (hlive : ∀ p ∈ reset', p ∉ gone) : Trims (gone ++ gone') (reset ++ reset') s s'' where
  consistent := h'.consistent
  node? j := by
    rw [h'.node?, h.node?]
    by_cases hj : j ∈ gone <;> by_cases hj' : j ∈ gone' <;> by_cases hr : j ∈ reset <;>
      by_cases hr' : j ∈ reset' <;> simp [hj, hj', hr, hr', Function.comp_def]
  neighbors j := by
    rw [h'.neighbors, h.neighbors]
    by_cases hj : j ∈ gone <;> by_cases hj' : j ∈ gone' <;>
      simp [hj, hj', List.filter_filter, Bool.and_comm]
  edge? i f := by
    rw [h'.edge?, h.edge?, List.mem_append, List.mem_append]
    tauto
  box j := by
    rw [h'.box, h.box]
    have hj := hlive j
    by_cases hr' : j ∈ reset' <;> by_cases hg : j ∈ gone <;> by_cases hg' : j ∈ gone' <;>
      by_cases hr : j ∈ reset <;> simp_all
  nextId := h'.nextId.trans h.nextId
  services := h'.services.trans h.services

theorem Trims.hasNode_eq (h : Trims gone reset s s') (hid : id ∉ gone) :
    s'.graph.hasNode id = s.graph.hasNode id := by
  rw [Graph.hasNode_eq, h.node?, if_neg hid, Option.isSome_map, ← Graph.hasNode_eq]

theorem Trims.edge?_of_some (h : Trims gone reset s s') {i : Id}
    (hf : s'.graph.edge? i = some f) : s.graph.edge? i = some f :=
  ((h.edge? i f).1 hf).1

/-- The links that were cut are those that touched what is gone. -/
theorem Trims.mem_cut (h : Trims gone reset s s') (hc : s.graph.Consistent)
    (hcuts : s.graph.Cuts cut s'.graph) :
    f ∈ cut ↔ (s.graph.edge? f.id = some f ∧ f.kind = .external) ∧
      (f.source ∈ gone ∨ f.target ∈ gone) := by
  have hnodup : (cut ++ s'.graph.links).Nodup := hcuts.links.nodup_iff.1 hc.nodup_links
  have hmem : f ∈ s.graph.links ↔ f ∈ cut ∨ f ∈ s'.graph.links :=
    hcuts.links.mem_iff.trans List.mem_append
  have hkept : f ∈ s'.graph.links ↔ f ∈ s.graph.links ∧ ¬ (f.source ∈ gone ∨ f.target ∈ gone) := by
    rw [h.consistent.mem_links, hc.mem_links, h.edge?, not_or, and_right_comm]
  rw [← hc.mem_links]
  constructor
  · intro hf
    have hlink := hmem.2 (Or.inl hf)
    refine ⟨hlink, Classical.byContradiction fun hapart => ?_⟩
    exact (List.nodup_append.1 hnodup).2.2 f hf f (hkept.2 ⟨hlink, hapart⟩) rfl
  · rintro ⟨hlink, htouch⟩
    exact (hmem.1 hlink).resolve_right fun hf => (hkept.1 hf).2 htouch

/-! ## Dropping nodes -/

theorem trims_write (hc : s.graph.Consistent) (pin : Id) :
    Trims [] [pin] s (s.write pin (.int noIndex)) where
  consistent := consistent_write hc pin _
  node? j := by
    rw [node?_write]
    simp [Value.scalar?]
  neighbors j := by simp
  edge? i f := by simp
  box j := by simp
  nextId := nextId_write ..
  services := services_write ..

theorem trims_eraseNode (hc : s.graph.Consistent) {n : Node} {g : Graph}
    (h : s.graph.eraseNode id = .ok (n, g)) :
    Trims [id] [] s { s with graph := g, values := s.values.erase id } := by
  have he := hc.erasesNode h
  refine ⟨he.consistent, fun j => ?_, fun j => ?_, fun i f => ?_, fun j => ?_, he.nextId, rfl⟩
  · rw [he.node?]
    simp
  · rw [he.neighbors]
    simp
  · rw [he.edge?, Option.filter_eq_some_iff]
    simp [Edge.touches]
  · rw [Table.get?_erase]
    simp

/-- Nodes that are there can all be dropped, each once. -/
theorem trims_eraseOwned {ids : List Id} (hc : s.graph.Consistent) (hnodup : ids.Nodup)
    (hlive : ∀ id ∈ ids, s.graph.hasNode id) :
    ∃ s', (eraseOwned ids).on s = (.ok (), s') ∧ Trims ids [] s s' := by
  induction ids generalizing s with
  | nil => exact ⟨s, rfl, .refl hc⟩
  | cons id ids ih =>
      obtain ⟨hnew, hnodup⟩ := List.nodup_cons.1 hnodup
      obtain ⟨n, g, he, _⟩ := hc.eraseNode (hlive id List.mem_cons_self)
      have hfirst := trims_eraseNode hc he
      have hrest (j : Id) (hj : j ∈ ids) : g.hasNode j := by
        have hne : j ∉ [id] := fun h => hnew (List.mem_singleton.1 h ▸ hj)
        exact (hfirst.hasNode_eq hne).trans (hlive j (List.mem_cons_of_mem _ hj))
      obtain ⟨s', hs', htrims⟩ := ih hfirst.consistent hnodup hrest
      exact ⟨s', (eraseOwned_cons he ids).trans hs', hfirst.trans htrims fun _ hp => nomatch hp⟩

end Scene

open Scene

variable {s s' : Scene}

namespace Draw

/-- The pins for the variables of the shader. -/
def params (d : Draw) : List Id := d.bindings.map (·.pin)

/-- The draw node without a shader. -/
def unbound (d : Draw) : Draw := { d with bindings := [], bound := noIndex }

theorem trims_teardown {d : Draw} (hc : s.graph.Consistent) (hnodup : d.params.Nodup)
    (hlive : ∀ p ∈ d.params, s.graph.hasNode p) : Trims d.params [] s (d.teardown s).2 := by
  obtain ⟨s', hs', htrims⟩ := trims_eraseOwned hc hnodup hlive
  have hquiet : (d.teardown s).2 = s' := by
    rw [teardown, Attempt.quietly]
    exact congrArg Prod.snd hs'
  rwa [hquiet]

/-- A draw node that hears that its shader pin is not linked any more. -/
theorem onEvent_trims {d : Draw} (hc : s.graph.Consistent) (hnodup : d.params.Nodup)
    (hlive : ∀ p ∈ d.params, s.graph.hasNode p) (t : Id) :
    ∃ s' cut, d.onEvent s (.linkDeleted d.shader t) = (d.unbound, s') ∧
      Trims d.params [d.shader] s s' ∧ s.graph.Cuts cut s'.graph := by
  have hwrite := trims_write hc d.shader
  obtain ⟨s', hs', htrims⟩ := trims_eraseOwned hwrite.consistent hnodup fun p hp =>
    (hwrite.hasNode_eq List.not_mem_nil).trans (hlive p hp)
  have hquiet : (eraseOwned (d.bindings.map (·.pin))).quietly
      (s.write d.shader (.int noIndex)) = s' := by
    rw [Attempt.quietly]
    exact congrArg Prod.snd hs'
  have hevent : d.onEvent s (.linkDeleted d.shader t) = (d.unbound, s') := by
    simp only [onEvent, if_pos, teardown, hquiet, unbound]
  obtain ⟨cut, hcuts⟩ := UiNode.cuts_onEvent (.draw d) (.linkDeleted d.shader t) s
  rw [UiNode.onEvent, hevent] at hcuts
  exact ⟨s', cut, hevent, hwrite.trans htrims (fun _ hp => nomatch hp), hcuts⟩

end Draw

/-- A UI node that is removed takes with it its pins and its identity. -/
theorem UiNode.onDelete_trims {n : UiNode} (hc : s.graph.Consistent)
    (hnodup : (n.id :: n.pins).Nodup) (hlive : ∀ p ∈ n.id :: n.pins, s.graph.hasNode p) :
    ∃ s' cut, n.onDelete.on s = (.ok (), s') ∧ Trims (n.id :: n.pins) [] s s' ∧
      s.graph.Cuts cut s'.graph := by
  obtain ⟨hid, hpins⟩ := List.nodup_cons.1 hnodup
  obtain ⟨s₁, hs₁, hfirst⟩ := trims_eraseOwned hc hpins fun p hp =>
    hlive p (List.mem_cons_of_mem _ hp)
  obtain ⟨s', hs', hsecond⟩ := trims_eraseOwned hfirst.consistent (List.nodup_singleton n.id)
    (List.forall_mem_singleton.2
      ((hfirst.hasNode_eq hid).trans (hlive n.id List.mem_cons_self)))
  have hdelete : n.onDelete.on s = (.ok (), s') := by
    rw [onDelete, Attempt.on_bind_of_ok hs₁]
    exact hs'
  obtain ⟨cut, hcuts⟩ := Scene.Moves.cuts (n.moves_onDelete s)
  rw [hdelete] at hcuts
  refine ⟨s', cut, hdelete, ?_, hcuts⟩
  exact (hfirst.trans hsecond fun _ hp => nomatch hp).congr (fun j => by simp [or_comm])
    fun _ => .rfl

end DrawGraph
