import DrawGraph.Proofs.UiNode.Follow

/-!
# Draw nodes without a shader

A draw node has the inputs of a shader only while something is linked to its shader pin, or while
the event waits that tells it of the end of that link. No link ever goes without such an event.
-/

namespace DrawGraph

open Relation

/-! ## Links that go are told of -/

namespace Graph

variable {g g' : Graph} {id pin : Id}

/-- Something is linked to a pin. -/
def Fed (g : Graph) (pin : Id) : Prop :=
  ∃ i e, g.edge? i = some e ∧ e.source = pin ∧ e.kind = .external

/-- Some event tells that a link to the pin is gone. -/
def Loses (pin : Id) (events : List Event) : Prop := ∃ t, .linkDeleted pin t ∈ events

/-- All events tell of links that are gone. -/
def OnlyLosses (events : List Event) : Prop := ∀ event ∈ events, ∃ p t, event = .linkDeleted p t

theorem Loses.append_left {events : List Event} (h : Loses pin events) (added : List Event) :
    Loses pin (events ++ added) := by
  obtain ⟨t, ht⟩ := h
  exact ⟨t, List.mem_append_left _ ht⟩

theorem Loses.append_right {added : List Event} (h : Loses pin added) (events : List Event) :
    Loses pin (events ++ added) := by
  obtain ⟨t, ht⟩ := h
  exact ⟨t, List.mem_append_right _ ht⟩

/-- The links of a pin stay, or an event tells that one is gone. -/
structure Sheds (g g' : Graph) (added : List Event) : Prop where
  outbox : g'.outbox = g.outbox ++ added
  losses : OnlyLosses added
  fed : ∀ pin, g.Fed pin → g'.Fed pin ∨ Loses pin added

theorem Sheds.of_edges (houtbox : g'.outbox = g.outbox)
    (hedge : ∀ i e, g.edge? i = some e → g'.edge? i = some e) : g.Sheds g' [] where
  outbox := by rw [houtbox, List.append_nil]
  losses := by simp [OnlyLosses]
  fed := by
    rintro pin ⟨i, e, he, hs, hx⟩
    exact Or.inl ⟨i, e, hedge i e he, hs, hx⟩

theorem Sheds.refl (g : Graph) : g.Sheds g [] := .of_edges rfl fun _ _ h => h

theorem Sheds.trans {g'' : Graph} {added added' : List Event} (h : g.Sheds g' added)
    (h' : g'.Sheds g'' added') : g.Sheds g'' (added ++ added') where
  outbox := by rw [h'.outbox, h.outbox, List.append_assoc]
  losses event hevent := (List.mem_append.1 hevent).elim (h.losses event) (h'.losses event)
  fed pin hpin := by
    rcases h.fed pin hpin with hfed | hloses
    · exact (h'.fed pin hfed).imp_right fun h => h.append_right _
    · exact Or.inr (hloses.append_left _)

theorem AddsNode.sheds {n : Node} (h : g.AddsNode n id g') : g.Sheds g' [] :=
  .of_edges h.outbox fun i _ he => (h.edge? i).trans he

theorem AddsEdge.edge?_of_some {e f : Edge} (h : g.AddsEdge e g') {i : Id}
    (hf : g.edge? i = some f) : g'.edge? i = some f := by
  rw [h.edge?, if_neg, hf]
  rintro rfl
  have hfresh := h.fresh
  rw [hasEdge_eq, hf] at hfresh
  cases hfresh

theorem AddsEdge.sheds {e : Edge} (h : g.AddsEdge e g') (hx : e.kind = .internal) :
    g.Sheds g' [] := by
  refine .of_edges ?_ fun i f hf => h.edge?_of_some hf
  rw [h.outbox, hx]
  simp

theorem ErasesEdge.sheds {e : Edge} (hc : g.Consistent) (he : g.edge? id = some e)
    (h : g.ErasesEdge e g') :
    g.Sheds g' (if e.kind = .external then [.linkDeleted e.source e.target] else []) where
  outbox := h.outbox
  losses event hevent := by
    split at hevent
    · exact ⟨_, _, List.mem_singleton.1 hevent⟩
    · cases hevent
  fed := by
    rintro pin ⟨i, f, hf, rfl, hx⟩
    by_cases hi : i = e.id
    · have hid : i = id := hi.trans (hc.own id e he)
      obtain rfl : e = f := Option.some.inj (he.symm.trans (hid ▸ hf))
      rw [if_pos hx]
      exact Or.inr ⟨_, List.mem_singleton_self _⟩
    · exact Or.inl ⟨i, f, by rw [h.edge?, if_neg hi, hf], rfl, hx⟩

/-- Erasing some of the edges that there are, each once. -/
theorem Consistent.eraseEdges_sheds (hc : g.Consistent) {ids : List Id} (hids : ids.Nodup)
    (hlive : ∀ i ∈ ids, ∃ e, g.edge? i = some e) (h : g.eraseEdges ids = .ok g') :
    ∃ added, g.Sheds g' added := by
  induction ids generalizing g with
  | nil =>
      cases h
      exact ⟨[], .refl _⟩
  | cons i ids ih =>
      obtain ⟨hi, hids⟩ := List.nodup_cons.1 hids
      obtain ⟨e, he⟩ := hlive i List.mem_cons_self
      obtain ⟨g₁, hg₁, h₁⟩ := hc.eraseEdge he
      have hrest : g₁.eraseEdges ids = .ok g' := by
        simpa [Graph.eraseEdges, hg₁, bind, Except.bind] using h
      have hlive' : ∀ j ∈ ids, ∃ f, g₁.edge? j = some f := by
        intro j hj
        obtain ⟨f, hf⟩ := hlive j (List.mem_cons_of_mem _ hj)
        refine ⟨f, ?_⟩
        rw [h₁.edge?, if_neg, hf]
        rintro rfl
        exact hi (hc.own i e he ▸ hj)
      obtain ⟨added, hadded⟩ := ih h₁.consistent hids hlive' hrest
      exact ⟨_, (h₁.sheds hc he).trans hadded⟩

theorem Consistent.eraseNode_sheds (hc : g.Consistent) {n : Node}
    (h : g.eraseNode id = .ok (n, g')) : ∃ added, g.Sheds g' added := by
  unfold Graph.eraseNode at h
  split at h
  · cases h
  · simp only [bind, Except.bind, pure, Except.pure] at h
    split at h
    · cases h
    · next g₁ hg₁ =>
      cases h
      have hids : ((g.edgeList.filter (·.touches id)).map (·.id)).Nodup :=
        (nodup_edgeIds hc).sublist (List.filter_sublist.map _)
      have hlive : ∀ i ∈ (g.edgeList.filter (·.touches id)).map (·.id),
          ∃ e, g.edge? i = some e := by
        intro i hi
        obtain ⟨e, he, rfl⟩ := List.mem_map.1 hi
        obtain ⟨j, hj⟩ := mem_edgeList.1 (List.mem_of_mem_filter he)
        exact ⟨e, (hc.own j e hj).symm ▸ hj⟩
      obtain ⟨added, hadded⟩ := hc.eraseEdges_sheds hids hlive hg₁
      exact ⟨added, hadded.outbox, hadded.losses, hadded.fed⟩

end Graph

namespace Scene

variable {home mine : Id → Prop} {s s' : Scene}

theorem Move.sheds (hc : s.graph.Consistent) (h : Move home mine s s') :
    s'.graph.Consistent ∧ ∃ added, s.graph.Sheds s'.graph added := by
  cases h with
  | addNode h =>
      have ha := hc.addNode h
      exact ⟨ha.consistent, _, ha.sheds⟩
  | addInput _ h =>
      obtain ⟨g₁, edge, g₂, ha, he, _, rfl⟩ := addsInput hc h
      exact ⟨he.consistent, _, ha.sheds.trans (he.sheds rfl)⟩
  | addOutput _ h =>
      obtain ⟨g₁, edge, g₂, ha, he, _, rfl⟩ := addsOutput hc h
      exact ⟨he.consistent, _, ha.sheds.trans (he.sheds rfl)⟩
  | unbox => exact ⟨hc, _, .refl _⟩
  | eraseNode _ h => exact ⟨(hc.erasesNode h).consistent, hc.eraseNode_sheds h⟩
  | write v =>
      exact ⟨consistent_write hc _ v, _, .of_edges (outbox_write s _ v) fun i e he =>
        (edge?_write s _ v i).trans he⟩
  | load => exact ⟨hc, _, .refl _⟩

theorem Moves.sheds (hc : s.graph.Consistent) (h : Moves home mine s s') :
    ∃ added, s.graph.Sheds s'.graph added := by
  have hboth : s'.graph.Consistent ∧ ∃ added, s.graph.Sheds s'.graph added := by
    induction h with
    | refl => exact ⟨hc, _, .refl _⟩
    | tail _ hmove ih =>
        obtain ⟨hc, added, hadded⟩ := ih
        obtain ⟨hc', added', hadded'⟩ := hmove.sheds hc
        exact ⟨hc', _, hadded.trans hadded'⟩
  exact hboth.2

end Scene

/-! ## The base form -/

namespace Draw

open DrawGraph.Graph

variable {strict : Prop} {d d' : Draw} {g g' : Graph} {s : Scene} {events added : List Event}

/-- A draw node with nothing of a shader. Strictly, it is bound to none; else any index that no
shader has will do. -/
def IsBase (strict : Prop) (d : Draw) : Prop :=
  d.bindings = [] ∧ d.bound < 0 ∧ (strict → d.bound = noIndex)

theorem isBase_of_unbound (hbindings : d.bindings = []) (hbound : d.bound = noIndex) :
    d.IsBase strict :=
  ⟨hbindings, hbound ▸ (show noIndex < 0 by decide), fun _ => hbound⟩

theorem IsBase.inputs (h : d.IsBase strict) : (UiNode.draw d).inputs = [d.shader, d.model] := by
  rw [UiNode.inputs, h.1, List.map_nil]

/-- A draw node to which nothing is linked as its shader is in its base form, or some event that it
is going to hear of tells it that it lost its shader. -/
structure Tended (strict : Prop) (d : Draw) (g : Graph) (events : List Event) : Prop where
  base : g.Fed d.shader ∨ Loses d.shader events ∨ d.IsBase strict
  created : ∀ pre t post, events = pre ++ .linkCreated d.shader t :: post →
    g.Fed d.shader ∨ Loses d.shader post

theorem IsBase.tended (h : d.IsBase strict) (g : Graph) : d.Tended strict g [] where
  base := Or.inr (Or.inr h)
  created pre t post h := by
    have hlen := congrArg List.length h
    simp at hlen

/-- Later events do no harm, if they tell of all links that go and of no link that is not there. -/
theorem Tended.append (h : d.Tended strict g events)
    (hfed : g.Fed d.shader → g'.Fed d.shader ∨ Loses d.shader added)
    (hadded : ∀ t, .linkCreated d.shader t ∈ added → g'.Fed d.shader) :
    d.Tended strict g' (events ++ added) where
  base := by
    rcases h.base with hlinked | hloses | hbase
    · exact (hfed hlinked).imp_right fun h => Or.inl (h.append_right _)
    · exact Or.inr (Or.inl (hloses.append_left _))
    · exact Or.inr (Or.inr hbase)
  created pre t post heq := by
    rcases List.append_eq_append_iff.1 heq with ⟨pre', rfl, hsplit⟩ | ⟨post', rfl, hsplit⟩
    · refine Or.inl (hadded t ?_)
      rw [hsplit]
      exact List.mem_append_right _ List.mem_cons_self
    · cases post' with
      | nil =>
          refine Or.inl (hadded t ?_)
          rw [← hsplit.trans (List.nil_append added)]
          exact List.mem_cons_self
      | cons event post' =>
          obtain ⟨rfl, rfl⟩ := List.cons_eq_cons.1 hsplit
          rcases h.created pre t post' rfl with hlinked | hloses
          · exact (hfed hlinked).imp_right fun h => h.append_right _
          · exact Or.inr (hloses.append_left _)

theorem Tended.sheds (h : d.Tended strict g events) (hs : g.Sheds g' added) :
    d.Tended strict g' (events ++ added) := by
  refine h.append (hs.fed d.shader) fun t ht => ?_
  obtain ⟨p, q, heq⟩ := hs.losses _ ht
  cases heq

theorem Tended.sheds_outbox (h : d.Tended strict g g.outbox) (hs : g.Sheds g' added) :
    d.Tended strict g' g'.outbox := by
  rw [hs.outbox]
  exact h.sheds hs

/-- A draw node may be bound anew as long as it is linked or is going to hear that it is not. -/
theorem Tended.rebind (h : d.Tended strict g events) (hshader : d'.shader = d.shader)
    (hlinked : g.Fed d.shader ∨ Loses d.shader events ∨ d'.IsBase strict) : d'.Tended strict g events where
  base := by rwa [hshader]
  created := by
    rw [hshader]
    exact h.created

/-- Of an event that was no loss the draw node need not hear. -/
theorem Tended.tail {event : Event} (h : d.Tended strict g (event :: events))
    (hevent : ∀ t, event ≠ .linkDeleted d.shader t) : d.Tended strict g events where
  base := h.base.imp_right fun h => h.imp_left fun ⟨t, ht⟩ =>
    ⟨t, (List.mem_cons.1 ht).resolve_left fun heq => hevent t heq.symm⟩
  created pre t post heq := h.created (event :: pre) t post (by rw [heq, List.cons_append])

theorem sheds_sync (hc : s.graph.Consistent) (d : Draw) (shader : Int32) :
    ∃ added, s.graph.Sheds (d.sync s shader).2.graph added := by
  have hmoves : Scene.Moves (· = d.id) (fun _ => True) s (d.sync s shader).2 :=
    d.moves_sync s shader fun _ _ => trivial
  exact hmoves.sheds hc

/-- A draw node that is linked, or is going to hear that it is not, may follow any shader. -/
theorem Tended.sync (hc : s.graph.Consistent) (h : d.Tended strict s.graph s.graph.outbox)
    (hlinked : s.graph.Fed d.shader ∨ Loses d.shader s.graph.outbox) (shader : Int32) :
    (d.sync s shader).1.Tended strict (d.sync s shader).2.graph (d.sync s shader).2.graph.outbox := by
  obtain ⟨added, hadded⟩ := sheds_sync hc d shader
  obtain ⟨bs, hd, _⟩ := d.sync_eq s shader
  rw [hd]
  exact Tended.sheds_outbox (h.rebind rfl (hlinked.imp_right Or.inl)) hadded

/-- A draw node that has heard of an event is still tended without it. -/
theorem Tended.onEvent {event : Event} (hc : s.graph.Consistent)
    (h : d.Tended strict s.graph (event :: s.graph.outbox)) :
    (d.onEvent s event).1.Tended strict (d.onEvent s event).2.graph
      (d.onEvent s event).2.graph.outbox := by
  -- writing the index of the shader changes neither links nor events
  have hwrite (n : Int32) : (s.write d.shader (.int n)).graph.Consistent ∧
      s.graph.Sheds (s.write d.shader (.int n)).graph [] :=
    ⟨Scene.consistent_write hc _ _, .of_edges (Scene.outbox_write ..) fun i e he =>
      (Scene.edge?_write s _ _ i).trans he⟩
  cases event with
  | linkCreated source target =>
      have htail := h.tail (fun _ => nofun)
      unfold Draw.onEvent
      dsimp only
      split
      · next hsource =>
        subst hsource
        obtain ⟨hc', hsheds⟩ := hwrite (((s.values.get? target).bind Value.index?).getD noIndex)
        have hlinked := h.created [] target s.graph.outbox rfl
        refine Tended.sync hc' (htail.sheds_outbox hsheds) ?_ _
        rw [hsheds.outbox, List.append_nil]
        exact hlinked.elim (fun h => (hsheds.fed _ h).imp_right fun ⟨t, ht⟩ => nomatch ht) Or.inr
      · exact htail
  | linkDeleted source target =>
      unfold Draw.onEvent
      dsimp only
      split
      · have hmoves : Scene.Moves (· = d.id) (fun _ => True) (s.write d.shader (.int noIndex))
            (d.teardown (s.write d.shader (.int noIndex))).2 :=
          d.moves_teardown _ fun _ _ => trivial
        obtain ⟨hc', hsheds⟩ := hwrite noIndex
        obtain ⟨added, hadded⟩ := hmoves.sheds hc'
        have htold : Tended strict { (d.teardown (s.write d.shader (.int noIndex))).1 with
            bound := noIndex } s.graph s.graph.outbox := by
          refine ⟨Or.inr (Or.inr (isBase_of_unbound rfl rfl)), fun pre t post heq => ?_⟩
          apply h.created (.linkDeleted source target :: pre) t post
          rw [heq, List.cons_append]
          rfl
        exact htold.sheds_outbox (hsheds.trans hadded)
      · next hsource =>
        refine h.tail fun t heq => ?_
        cases heq
        exact hsource rfl
  | shaderUpdated shader =>
      have htail := h.tail (fun _ => nofun)
      unfold Draw.onEvent
      dsimp only
      split
      · next hshader =>
        refine Tended.sync hc htail ?_ _
        rcases htail.base with hlinked | hloses | hbase
        · exact Or.inl hlinked
        · exact Or.inr hloses
        · have hneg := hbase.2.1
          rw [← hshader.2] at hneg
          exact absurd hshader.1 (Int32.not_le.2 hneg)
      · exact htail

end Draw

end DrawGraph
