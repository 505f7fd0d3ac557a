import DrawGraph.Proofs.UiNode.Create
import DrawGraph.Proofs.UiNode.Renewal

/-!
# Making UI nodes beside others

A UI node is made of new nodes, new boxes and new edges that leave new nodes. So whatever the scene
is like, all under ids given out before stays as it was, also if ids run out half way.
-/

namespace DrawGraph

namespace Scene

open DrawGraph.Graph

/-- All under ids that were given out before is as it was. -/
structure Grows (s s' : Scene) : Prop where
  consistent : s'.graph.Consistent
  nextId : s.graph.nextId ≤ s'.graph.nextId
  node? : ∀ j < s.graph.nextId, s'.graph.node? j = s.graph.node? j
  edge? : ∀ j < s.graph.nextId, s'.graph.edge? j = s.graph.edge? j
  neighbors : ∀ j < s.graph.nextId, s'.graph.neighbors j = s.graph.neighbors j
  box : ∀ j < s.graph.nextId, s'.values.get? j = s.values.get? j

/-- A UI node is being made: it has a new identity and some new pins, of which none is linked. -/
structure Started (s : Scene) (id : Id) (pins : List Id) (s' : Scene) : Prop where
  grows : Grows s s'
  bare : ∀ p ∈ pins, ∀ t ∈ s'.graph.neighbors p, t = id
  count : s'.graph.nextId.toNat = s.graph.nextId.toNat + (1 + 2 * pins.length)
  id : s.graph.nextId ≤ id ∧ s'.graph.facing id = some .none
  pins : ∀ p ∈ pins, s.graph.nextId ≤ p ∧ ∃ d, s'.graph.facing p = some d ∧ d.isPin

/-- Fewer ids than `limit` were left, and all that there was is as it was. -/
structure Halts (limit : Nat) (s : Scene) (err : GraphError) (s' : Scene) : Prop where
  exhausted : err = .idSpaceExhausted
  grows : Grows s s'
  few : lastId.toNat < s.graph.nextId.toNat + limit

variable {s s' t : Scene} {id pin : Id} {pins : List Id} {limit : Nat}

namespace Grows

theorem refl (hc : s.graph.Consistent) : Grows s s :=
  ⟨hc, UInt32.le_refl _, fun _ _ => rfl, fun _ _ => rfl, fun _ _ => rfl, fun _ _ => rfl⟩

theorem alters (h : Grows s s') (mine : Id → Prop) : s.graph.Alters mine s'.graph where
  consistent := h.consistent
  nextId := h.nextId
  facing j hj := Or.inl (by rw [facing, h.node? j hj, facing])

theorem addsNode (h : Grows s s') {n : Node} {g : Graph} (ha : s'.graph.AddsNode n id g) :
    Grows s { s' with graph := g } where
  consistent := ha.consistent
  nextId := UInt32.le_trans h.nextId ha.nextId_le
  node? j hj := by
    have hne : j ≠ id := fun heq =>
      UInt32.lt_irrefl _ (UInt32.lt_of_lt_of_le (heq ▸ hj) (ha.id_eq ▸ h.nextId))
    rw [ha.node?, if_neg hne, h.node? j hj]
  edge? j hj := (ha.edge? j).trans (h.edge? j hj)
  neighbors j hj := (ha.neighbors j).trans (h.neighbors j hj)
  box := h.box

/-- An edge that leaves a new node is in no list that there was. -/
theorem addsEdge (h : Grows s s') {e : Edge} {g : Graph} (he : s'.graph.AddsEdge e g)
    (hsource : s.graph.nextId ≤ e.source) : Grows s { s' with graph := g } where
  consistent := he.consistent
  nextId := UInt32.le_trans h.nextId he.nextId_le
  node? j hj := (he.node? j).trans (h.node? j hj)
  edge? j hj := by
    have hne : j ≠ e.id := fun heq =>
      UInt32.lt_irrefl _ (UInt32.lt_of_lt_of_le (heq ▸ hj) (he.id_eq ▸ h.nextId))
    rw [he.edge?, if_neg hne, h.edge? j hj]
  neighbors j hj := by
    have hne : j ≠ e.source := fun heq =>
      UInt32.lt_irrefl _ (UInt32.lt_of_lt_of_le (heq ▸ hj) hsource)
    rw [he.neighbors, if_neg hne, h.neighbors j hj]
  box := h.box

theorem put (h : Grows s s') (hpin : s.graph.nextId ≤ pin) (v : Value) :
    Grows s { s' with values := s'.values.put pin v } where
  consistent := h.consistent
  nextId := h.nextId
  node? := h.node?
  edge? := h.edge?
  neighbors := h.neighbors
  box j hj := by
    have hne : j ≠ pin := fun heq =>
      UInt32.lt_irrefl _ (UInt32.lt_of_lt_of_le (heq ▸ hj) hpin)
    rw [Table.get?_put, if_neg hne, h.box j hj]

end Grows

namespace Started

/-- What shows in the graph and the boxes is all that counts. -/
theorem of_eq (h : Started s id pins s') (hgraph : t.graph = s'.graph)
    (hvalues : t.values = s'.values) : Started s id pins t := by
  obtain ⟨hgrows, hbare, hcount, hid, hpins⟩ := h
  obtain ⟨hc, hnext, hnode, hedge, hneighbors, hbox⟩ := hgrows
  constructor
  · constructor <;> simpa only [hgraph, hvalues]
  · simpa only [hgraph]
  · simpa only [hgraph]
  · simpa only [hgraph]
  · simpa only [hgraph]

theorem addPin (h : Started s id pins s') {direction : Direction} {v : Value} {e : Edge}
    {g₁ g₂ : Graph} (ha : s'.graph.AddsNode (pinNode direction v) pin g₁) (he : g₁.AddsEdge e g₂)
    (hdir : direction.isPin)
    (hends : e.source = id ∧ e.target = pin ∨ e.source = pin ∧ e.target = id) :
    Started s id (pins ++ [pin]) { s' with graph := g₂, values := s'.values.put pin v } := by
  have hpin : s.graph.nextId ≤ pin := ha.id_eq ▸ h.grows.nextId
  have hfacing (j : Id) : g₂.facing j = if j = pin then some direction else s'.graph.facing j := by
    rw [facing, he.node?, ha.node?]
    split
    · rfl
    · rfl
  have hold {j : Id} {d : Direction} (hj : s'.graph.facing j = some d) :
      g₂.facing j = some d := by
    rw [hfacing, if_neg, hj]
    rintro rfl
    have hlive := hasNode_of_facing hj
    rw [ha.fresh] at hlive
    cases hlive
  have hne {j : Id} {d : Direction} (hj : s'.graph.facing j = some d) : j ≠ pin := by
    rintro rfl
    have hlive := hasNode_of_facing hj
    rw [ha.fresh] at hlive
    cases hlive
  refine ⟨?_, ?_, ?_, ⟨h.id.1, hold h.id.2⟩, ?_⟩
  · refine ((h.grows.addsNode ha).addsEdge he ?_).put hpin v
    rcases hends with ⟨hsource, _⟩ | ⟨hsource, _⟩
    · exact hsource ▸ h.id.1
    · exact hsource ▸ hpin
  · have hnil : s'.graph.neighbors pin = [] := h.grows.consistent.neighbors_eq_nil ha.fresh
    refine List.forall_mem_append.2 ⟨fun p hp t ht => ?_, List.forall_mem_singleton.2 fun t ht => ?_⟩
    · obtain ⟨_, d, hd, hisPin⟩ := h.pins p hp
      have hid : p ≠ id := by
        rintro rfl
        rw [h.id.2, Option.some.injEq] at hd
        exact absurd (hd ▸ hisPin) (by decide)
      have hsource : p ≠ e.source := by
        rcases hends with ⟨hsource, _⟩ | ⟨hsource, _⟩
        · exact hsource ▸ hid
        · exact hsource ▸ hne hd
      rw [he.neighbors, if_neg hsource, ha.neighbors] at ht
      exact h.bare p hp t ht
    · rw [he.neighbors, ha.neighbors, hnil] at ht
      split at ht
      · next hsource =>
        rcases hends with ⟨hid, _⟩ | ⟨_, htarget⟩
        · exact absurd (hid.symm.trans hsource.symm) (hne h.id.2)
        · exact (List.mem_singleton.1 ht).trans htarget
      · cases ht
  · have hcount := h.count
    rw [List.length_append, List.length_singleton]
    change g₂.nextId.toNat = _
    rw [he.toNat_nextId, ha.toNat_nextId]
    omega
  · refine List.forall_mem_append.2 ⟨fun p hp => ?_, List.forall_mem_singleton.2 ⟨hpin, ?_⟩⟩
    · obtain ⟨hle, d, hd, hisPin⟩ := h.pins p hp
      exact ⟨hle, d, hold hd, hisPin⟩
    · exact ⟨direction, (hfacing pin).trans (if_pos rfl), hdir⟩

theorem hasNode (h : Started s id pins s') : s'.graph.hasNode id := hasNode_of_facing h.id.2

/-- With its edge between the identity and itself a pin is one more of the identity's. -/
theorem pin_ensures (h : Started s id pins s') (hlimit : 2 * pins.length + 3 ≤ limit)
    {direction : Direction} (hdir : direction.isPin) (v : Value) {source target : Id → Id}
    (hends : ∀ pin, source pin = id ∧ target pin = pin ∨ source pin = pin ∧ target pin = id) :
    (Scene.addPin direction source target v).Ensures s' (Halts limit s) fun pin t =>
      Started s id (pins ++ [pin]) t := by
  have hcount := h.count
  have hlive {pin : Id} {g : Graph} (ha : s'.graph.AddsNode (pinNode direction v) pin g) :
      g.hasNode (source pin) ∧ g.hasNode (target pin) := by
    have hid : g.hasNode id := (ha.hasNode id).2 (Or.inr h.hasNode)
    have hpin : g.hasNode pin := (ha.hasNode pin).2 (Or.inl rfl)
    rcases hends pin with ⟨hs, ht⟩ | ⟨hs, ht⟩
    · rw [hs, ht]
      exact ⟨hid, hpin⟩
    · rw [hs, ht]
      exact ⟨hpin, hid⟩
  refine (Scene.addPin_ensures h.grows.consistent ?_ ?_).mono_ok ?_
  · intro err he
    refine ⟨addNode_error he, h.grows, ?_⟩
    rw [← nextId_of_addNode_error he]
    omega
  · intro err pin g ha he
    refine ⟨addEdge_error (hlive ha).1 (hlive ha).2 he, h.grows.addsNode ha, ?_⟩
    rw [← nextId_of_addEdge_error (hlive ha).1 (hlive ha).2 he, ha.toNat_nextId]
    omega
  · rintro pin _ ⟨g, edge, g', ha, he, rfl⟩
    exact h.addPin ha he hdir (hends pin)

theorem addInput_ensures (h : Started s id pins s') (hlimit : 2 * pins.length + 3 ≤ limit)
    (v : Value) :
    (addInput id v).Ensures s' (Halts limit s) fun pin t => Started s id (pins ++ [pin]) t :=
  h.pin_ensures hlimit rfl v fun _ => Or.inl ⟨rfl, rfl⟩

theorem addOutput_ensures (h : Started s id pins s') (hlimit : 2 * pins.length + 3 ≤ limit)
    (v : Value) :
    (addOutput id v).Ensures s' (Halts limit s) fun pin t => Started s id (pins ++ [pin]) t :=
  h.pin_ensures hlimit rfl v fun _ => Or.inr ⟨rfl, rfl⟩

theorem output_ensures (h : Started s id pins s') (hlimit : 2 * pins.length + 3 ≤ limit)
    (v : Value) {f : Id → UiNode}
    (hid : ∀ pin, (f pin).id = id) (hpins : ∀ pin, (f pin).pins = pins ++ [pin]) :
    (addOutput id v >>= fun pin => pure (f pin)).Ensures s' (Halts limit s)
      fun n t => Started s n.id n.pins t := by
  refine (h.addOutput_ensures hlimit v).bind fun pin t ht => Attempt.ensures_pure ?_
  rwa [hid, hpins]

end Started

theorem addIdentity_starts (hc : s.graph.Consistent) (hlimit : 0 < limit) {type : NodeType} :
    (addIdentity type).Ensures s (Halts limit s) fun id t => Started s id [] t := by
  refine onGraph_ensures (fun _ he => ⟨addNode_error he, .refl hc, ?_⟩) fun id g hg => ?_
  · rw [← nextId_of_addNode_error he]
    omega
  have ha := hc.addNode hg
  refine ⟨(Grows.refl hc).addsNode ha, (fun _ hp => nomatch hp), ha.toNat_nextId,
    ⟨ha.id_eq ▸ UInt32.le_refl _, ?_⟩, (fun _ hp => nomatch hp)⟩
  rw [facing, ha.node?, if_pos rfl]
  rfl

end Scene

/-- How many ids a new UI node takes: one, and for each of its pins one and another for an edge. -/
def UiNodeKind.ids : UiNodeKind → Nat
  | time | scalar | vector2 | vector3 | vector4 | matrix4x4 | model | texture | shader | primitive
  | renderTarget => 3
  | sine => 5
  | add | multiply | camera | draw => 7
  | transform => 9

namespace UiNode

open Scene

variable {s : Scene}

theorem ids_kind {n : UiNode} (h : ∀ d, n = draw d → d.bindings = []) :
    n.kind.ids = 1 + 2 * n.pins.length := by
  cases n with
  | binary op => cases op <;> rfl
  | constant kind => cases kind <;> rfl
  | asset kind => cases kind <;> rfl
  | draw d => simp [kind, UiNodeKind.ids, pins, inputs, outputs, h d rfl]
  | sine | time | primitive | camera | transform | renderTarget => rfl

theorem createBinary_starts (hc : s.graph.Consistent) (op : BinaryOp) (type : NodeType) :
    (createBinary op type).Ensures s (Halts 7 s) fun n t => Started s n.id n.pins t := by
  refine (addIdentity_starts hc (by decide)).bind fun id t ht => ?_
  refine (ht.addInput_ensures (by simp) _).bind fun left t ht => ?_
  refine (ht.addInput_ensures (by simp) _).bind fun right t ht => ?_
  exact ht.output_ensures (by simp) _ (fun _ => rfl) fun _ => rfl

theorem createConstant_starts (hc : s.graph.Consistent) (kind : ConstantKind) :
    (createConstant kind).Ensures s (Halts 3 s) fun n t => Started s n.id n.pins t := by
  refine (addIdentity_starts hc (by decide)).bind fun id t ht => ?_
  exact ht.output_ensures (by simp) _ (fun _ => rfl) fun _ => rfl

theorem createAsset_starts (hc : s.graph.Consistent) (kind : AssetKind) :
    (createAsset kind).Ensures s (Halts 3 s) fun n t => Started s n.id n.pins t := by
  refine (addIdentity_starts hc (by decide)).bind fun id t ht => ?_
  refine Attempt.ensures_get_bind (Attempt.ensures_set_bind ?_)
  have hsame := graph_resolveAsset t kind none
  exact (ht.of_eq hsame.1 hsame.2).output_ensures (by simp) _ (fun _ => rfl) fun _ => rfl

theorem createPrimitive_starts (hc : s.graph.Consistent) :
    createPrimitive.Ensures s (Halts 3 s) fun n t => Started s n.id n.pins t := by
  refine (addIdentity_starts hc (by decide)).bind fun id t ht => ?_
  refine Attempt.ensures_get_bind (Attempt.ensures_set_bind ?_)
  have hsame := graph_resolvePrimitive t .cube
  exact (ht.of_eq hsame.1 hsame.2).output_ensures (by simp) _ (fun _ => rfl) fun _ => rfl

/-- Making a UI node fails for want of ids only, and leaves alone what there was. -/
theorem create_starts (hc : s.graph.Consistent) (kind : UiNodeKind) :
    (create kind).Ensures s (Halts kind.ids s) fun n t => Started s n.id n.pins t := by
  cases kind with
  | add | multiply => exact createBinary_starts hc _ _
  | scalar | vector2 | vector3 | vector4 | matrix4x4 => exact createConstant_starts hc _
  | model | texture | shader => exact createAsset_starts hc _
  | primitive => exact createPrimitive_starts hc
  | time =>
      refine (addIdentity_starts hc (by decide)).bind fun id t ht => ?_
      exact ht.output_ensures (by simp [UiNodeKind.ids]) _ (fun _ => rfl) fun _ => rfl
  | sine =>
      refine (addIdentity_starts hc (by decide)).bind fun id t ht => ?_
      refine (ht.addInput_ensures (by simp [UiNodeKind.ids]) _).bind fun input t ht => ?_
      exact ht.output_ensures (by simp [UiNodeKind.ids]) _ (fun _ => rfl) fun _ => rfl
  | camera =>
      refine (addIdentity_starts hc (by decide)).bind fun id t ht => ?_
      refine (ht.addInput_ensures (by simp [UiNodeKind.ids]) _).bind fun position t ht => ?_
      refine (ht.addInput_ensures (by simp [UiNodeKind.ids]) _).bind fun target t ht => ?_
      exact ht.output_ensures (by simp [UiNodeKind.ids]) _ (fun _ => rfl) fun _ => rfl
  | transform =>
      refine (addIdentity_starts hc (by decide)).bind fun id t ht => ?_
      refine (ht.addInput_ensures (by simp [UiNodeKind.ids]) _).bind fun translation t ht => ?_
      refine (ht.addInput_ensures (by simp [UiNodeKind.ids]) _).bind fun rotation t ht => ?_
      refine (ht.addInput_ensures (by simp [UiNodeKind.ids]) _).bind fun scale t ht => ?_
      exact ht.output_ensures (by simp [UiNodeKind.ids]) _ (fun _ => rfl) fun _ => rfl
  | draw =>
      refine (addIdentity_starts hc (by decide)).bind fun id t ht => ?_
      refine (ht.addInput_ensures (by simp [UiNodeKind.ids]) _).bind fun shader t ht => ?_
      refine (ht.addInput_ensures (by simp [UiNodeKind.ids]) _).bind fun model t ht => ?_
      exact ht.output_ensures (by simp [UiNodeKind.ids]) _ (fun _ => rfl) fun _ => rfl
  | renderTarget =>
      refine (addIdentity_starts hc (by decide)).bind fun id t ht => ?_
      exact (ht.addInput_ensures (by simp [UiNodeKind.ids]) _).bind fun input t ht =>
        Attempt.ensures_pure ht

/-- With ids enough a UI node is made. -/
theorem create_of_room (hc : s.graph.Consistent) {kind : UiNodeKind}
    (hroom : s.graph.nextId.toNat + kind.ids ≤ Graph.lastId.toNat) :
    ∃ n t, (create kind).on s = (.ok n, t) ∧ Started s n.id n.pins t := by
  have hstarts := create_starts hc kind
  rcases hx : (create kind).on s with ⟨err | n, t⟩
  · have hfew := (hstarts.of_error hx).few
    omega
  · exact ⟨n, t, rfl, hstarts.of_ok hx⟩

end UiNode

end DrawGraph
