import DrawGraph.Proofs.Attempt
import DrawGraph.Proofs.Editor.Casting
import DrawGraph.Proofs.UiNode.Move

/-!
# Pins in their seats

Making and dropping pins keeps the scene to a wiring, in which the identity at work has just the
pins that were made and not dropped, and nothing changes anywhere else. The only refusal is that of
an id.
-/

namespace DrawGraph

namespace Scene

/-- A scene in which an identity has the given pins, and which keeps to a wiring that differs from
an earlier one only there. -/
def Seated (w : Wiring) (g : Graph) (id : Id) (sockets : List (Id × ValueKind)) (outputs : List Id)
    (offer : Offer) (s : Scene) : Prop :=
  ∃ w', Wired w' s.graph s.values ∧ w'.Seats id sockets outputs offer ∧
    Wiring.Recast id w g w' s.graph

/-- The only way in which making nodes and edges fails. -/
abbrev OutOfIds (e : GraphError) (_ : Scene) : Prop := e = .idSpaceExhausted

variable {w : Wiring} {g : Graph} {id : Id} {sockets : List (Id × ValueKind)} {outputs : List Id}
  {offer : Offer} {s : Scene}

theorem onGraph_ensures {α : Type} {f : Graph → Except GraphError (α × Graph)}
    {fails : GraphError → Scene → Prop} {ends : α → Scene → Prop}
    (herror : ∀ e, f s.graph = .error e → fails e s)
    (hok : ∀ a g', f s.graph = .ok (a, g') → ends a { s with graph := g' }) :
    (onGraph f).Ensures s fails ends := by
  rw [Attempt.Ensures, onGraph, Attempt.on_of]
  cases hf : f s.graph with
  | error e => exact herror e hf
  | ok p => exact hok p.1 p.2 hf

theorem addIdentity_ensures (h : Wired w s.graph s.values) {type : NodeType} (ht : type ≠ .value)
    (offer : Offer) :
    (addIdentity type).Ensures s OutOfIds fun id s' =>
      w id = none ∧ Seated w s.graph id [] [] offer s' := by
  refine onGraph_ensures (fun e he => Graph.addNode_error he) fun id g' ha => ?_
  have hadd := h.consistent.addNode ha
  have hw : w id = none := h.eq_none hadd.fresh
  refine ⟨hw, _, h.addIdentity hadd rfl ht, ⟨?_, by simp, by simp⟩,
    Wiring.recast_withIdentity hw hadd.nextId_le⟩
  exact Function.update_self ..

/-- A pin of nodes that are there is refused only for want of an id. -/
theorem addPin_outOfIds (hc : s.graph.Consistent) {direction : Direction} {source target : Id → Id}
    {v : Value} (hends : ∀ pin g₁, s.graph.AddsNode (pinNode direction v) pin g₁ →
      g₁.hasNode (source pin) ∧ g₁.hasNode (target pin)) :
    (addPin direction source target v).Ensures s OutOfIds fun pin s' => ∃ g₁ edge g₂,
      s.graph.AddsNode (pinNode direction v) pin g₁ ∧
        g₁.AddsEdge ⟨edge, source pin, target pin, .internal⟩ g₂ ∧
          s' = { s with graph := g₂, values := s.values.put pin v } := by
  refine addPin_ensures hc (fun _ he => Graph.addNode_error he) fun _ pin g₁ ha he => ?_
  obtain ⟨hsource, htarget⟩ := hends pin g₁ ha
  exact Graph.addEdge_error hsource htarget he

theorem addInput_ensures (h : Seated w g id sockets outputs offer s) (v : Value) :
    (addInput id v).Ensures s OutOfIds fun pin s' =>
      Seated w g id (sockets ++ [(pin, v.kind)]) outputs offer s' := by
  obtain ⟨w', hw, hs, hr⟩ := h
  have hadd : (addInput id v).Ensures s OutOfIds _ := addPin_outOfIds hw.consistent
    fun pin _ ha => ⟨(ha.hasNode id).2 (Or.inr (hw.hasNode hs.identity)),
      (ha.hasNode pin).2 (Or.inl rfl)⟩
  refine hadd.mono_ok ?_
  rintro pin _ ⟨g₁, edge, g₂, ha, he, rfl⟩
  have hpin : w' pin = none := hw.eq_none ha.fresh
  have hle := UInt32.le_trans ha.nextId_le he.nextId_le
  exact ⟨_, hw.addInput hs.identity ha rfl he v, hs.addInput hpin v.kind,
    hr.trans (Wiring.recast_withPin hpin hs.identity rfl (ha.id_eq ▸ UInt32.le_refl _) hle)⟩

theorem addOutput_ensures (h : Seated w g id sockets outputs offer s) (v : Value)
    (hv : offer.Admits v.kind) :
    (addOutput id v).Ensures s OutOfIds fun pin s' =>
      Seated w g id sockets (outputs ++ [pin]) offer s' := by
  obtain ⟨w', hw, hs, hr⟩ := h
  have hadd : (addOutput id v).Ensures s OutOfIds _ := addPin_outOfIds hw.consistent
    fun pin _ ha => ⟨(ha.hasNode pin).2 (Or.inl rfl),
      (ha.hasNode id).2 (Or.inr (hw.hasNode hs.identity))⟩
  refine hadd.mono_ok ?_
  rintro pin _ ⟨g₁, edge, g₂, ha, he, rfl⟩
  have hpin : w' pin = none := hw.eq_none ha.fresh
  have hle := UInt32.le_trans ha.nextId_le he.nextId_le
  exact ⟨_, hw.addOutput hs.identity ha rfl he hv, hs.addOutput hpin,
    hr.trans (Wiring.recast_withPin hpin hs.identity rfl (ha.id_eq ▸ UInt32.le_refl _) hle)⟩

theorem Seated.erase (h : Seated w g id sockets outputs offer s) {pin : Id}
    (hpin : pin ∈ sockets.map Prod.fst ∨ pin ∈ outputs) :
    ∃ n g', s.graph.eraseNode pin = .ok (n, g') ∧
      Seated w g id (sockets.filter (·.1 ≠ pin)) (outputs.filter (· ≠ pin)) offer
        { s with graph := g', values := s.values.erase pin } := by
  obtain ⟨w', hw, hs, hr⟩ := h
  obtain ⟨r, hrole, hhome, hbare⟩ := hs.role hpin
  obtain ⟨n, g', he, herase⟩ := hw.consistent.eraseNode (hw.hasNode hrole)
  refine ⟨n, g', he, _, hw.erase hrole hbare herase, hs.without hrole hbare hpin, ?_⟩
  have hgone := hw.coherent.recast hrole (Nat.le_of_eq (congrArg UInt32.toNat herase.nextId.symm))
  rw [hhome] at hgone
  exact hr.trans hgone

theorem eraseOwned_cons {n : Node} {g' : Graph} (he : s.graph.eraseNode id = .ok (n, g'))
    (ids : List Id) : (eraseOwned (id :: ids)).on s =
      (eraseOwned ids).on { s with graph := g', values := s.values.erase id } := by
  rw [eraseOwned, Attempt.on_bind_of_ok (Attempt.on_modify _ s),
    Attempt.on_bind_of_ok (a := n) (t := { s with graph := g', values := s.values.erase id })]
  simp only [onGraph, Attempt.on_of, he]

/-- Dropping pins never fails where each of them can be dropped. -/
theorem eraseOwned_ok {P : List (Id × ValueKind) → List Id → Scene → Prop}
    (herase : ∀ sockets outputs s pin, P sockets outputs s →
      pin ∈ sockets.map Prod.fst ∨ pin ∈ outputs → ∃ n g', s.graph.eraseNode pin = .ok (n, g') ∧
        P (sockets.filter (·.1 ≠ pin)) (outputs.filter (· ≠ pin))
          { s with graph := g', values := s.values.erase pin })
    {pins : List Id} (h : P sockets outputs s) (hnodup : pins.Nodup)
    (hmem : ∀ p ∈ pins, p ∈ sockets.map Prod.fst ∨ p ∈ outputs) :
    ∃ s', (eraseOwned pins).on s = (.ok (), s') ∧
      P (sockets.filter (·.1 ∉ pins)) (outputs.filter (· ∉ pins)) s' := by
  induction pins generalizing s sockets outputs with
  | nil =>
      refine ⟨s, rfl, ?_⟩
      simpa using h
  | cons pin pins ih =>
      obtain ⟨hnot, hnodup⟩ := List.nodup_cons.1 hnodup
      obtain ⟨n, g', he, h₁⟩ := herase _ _ _ _ h (hmem pin List.mem_cons_self)
      have hrest : ∀ p ∈ pins, p ∈ (sockets.filter (·.1 ≠ pin)).map Prod.fst ∨
          p ∈ outputs.filter (· ≠ pin) := by
        intro p hp
        have hne : p ≠ pin := fun heq => hnot (heq ▸ hp)
        rcases hmem p (List.mem_cons_of_mem _ hp) with hin | hout
        · obtain ⟨q, hq, rfl⟩ := List.mem_map.1 hin
          exact Or.inl (List.mem_map.2 ⟨q, List.mem_filter.2 ⟨hq, decide_eq_true hne⟩, rfl⟩)
        · exact Or.inr (List.mem_filter.2 ⟨hout, decide_eq_true hne⟩)
      obtain ⟨s', hs', h₂⟩ := ih h₁ hnodup hrest
      refine ⟨s', (eraseOwned_cons he pins).trans hs', ?_⟩
      simpa only [List.filter_filter, List.mem_cons, not_or, Bool.decide_and,
        Bool.and_comm, ne_eq] using h₂

theorem eraseOwned_seated {pins : List Id} (h : Seated w g id sockets outputs offer s)
    (hnodup : pins.Nodup) (hmem : ∀ p ∈ pins, p ∈ sockets.map Prod.fst ∨ p ∈ outputs) :
    ∃ s', (eraseOwned pins).on s = (.ok (), s') ∧
      Seated w g id (sockets.filter (·.1 ∉ pins)) (outputs.filter (· ∉ pins)) offer s' :=
  eraseOwned_ok (P := fun sockets outputs => Seated w g id sockets outputs offer)
    (fun _ _ _ _ h hpin => h.erase hpin) h hnodup hmem

theorem eraseOwned_singleton {n : Node} {g' : Graph} (he : s.graph.eraseNode id = .ok (n, g')) :
    (eraseOwned [id]).on s = (.ok (), { s with graph := g', values := s.values.erase id }) :=
  eraseOwned_cons he []

theorem eraseOwned_identity (h : Seated w g id [] [] offer s) :
    ∃ s' w', (eraseOwned [id]).on s = (.ok (), s') ∧ Wired w' s'.graph s'.values ∧
      Wiring.Recast id w g w' s'.graph ∧ w' id = none := by
  obtain ⟨w', hw, hs, hr⟩ := h
  have hbare : (Role.identity [] []).Bare := by
    rintro inputs outputs heq
    cases heq
    exact ⟨rfl, rfl⟩
  obtain ⟨n, g', he, herase⟩ := hw.consistent.eraseNode (hw.hasNode hs.identity)
  refine ⟨_, w'.without id, eraseOwned_singleton he, hw.erase hs.identity hbare herase,
    hr.trans ?_, if_pos rfl⟩
  exact hw.coherent.recast hs.identity (Nat.le_of_eq (congrArg UInt32.toNat herase.nextId.symm))

/-! ## Boxes -/

@[simp] theorem nextId_pull (s : Scene) (pin : Id) :
    (s.pull pin).graph.nextId = s.graph.nextId := by
  unfold pull
  split
  · rfl
  · split
    · exact nextId_write ..
    · rfl

@[simp] theorem neighbors_pull (s : Scene) (pin p : Id) :
    (s.pull pin).graph.neighbors p = s.graph.neighbors p := by
  unfold pull
  split
  · rfl
  · split
    · exact neighbors_write ..
    · rfl

/-- An input takes over what the output linked to it gives, as a value of its own kind. -/
theorem box_pull {pin o : Id} {u v old : Value} (hc : s.graph.Consistent)
    (hlink : s.graph.neighbors pin = [o]) (ho : s.values.get? o = some v)
    (hpin : s.values.get? pin = some old) (hu : v.coerce old.kind = some u) :
    (s.pull pin).values.get? pin = some u := by
  have hsource : s.source? pin = some o := by
    unfold source?
    rw [if_neg, hlink]
    · rfl
    · rw [hc.outDegree_eq_zero_iff, hlink]
      exact List.cons_ne_nil _ _
  unfold pull
  rw [hsource, Option.bind_some, ho]
  dsimp only
  rw [hpin, Option.map_some, Option.getD_some, hu]
  exact (get?_write ..).trans (if_pos rfl)

theorem wired_write (h : Wired w s.graph s.values) {pin : Id} {v : Value}
    (hv : Role.Boxes (w pin) (some v)) : Wired w (s.write pin v).graph (s.write pin v).values := by
  unfold write store
  cases v.scalar? with
  | none => exact h.put hv
  | some x => exact (h.setNumber pin x).put hv

theorem nextId_foldl_pull (pins : List Id) (s : Scene) :
    (pins.foldl pull s).graph.nextId = s.graph.nextId := by
  induction pins generalizing s with
  | nil => rfl
  | cons pin pins ih => rw [List.foldl_cons, ih, nextId_pull]

/-- An input takes over a value in its own kind only. -/
theorem wired_pull (h : Wired w s.graph s.values) {pin owner : Id} {kind : ValueKind}
    (hpin : w pin = some (.input owner kind)) :
    Wired w (s.pull pin).graph (s.pull pin).values := by
  unfold pull
  split
  · exact h
  · next v _ =>
    obtain ⟨old, hold, hkind⟩ := h.input_box hpin
    split
    · next u hu =>
      rw [hold] at hu
      refine wired_write h ?_
      rw [hpin]
      exact ⟨u, rfl, (Value.kind_of_coerce hu).trans hkind⟩
    · exact h

theorem wired_foldl_pull {pins : List Id} (h : Wired w s.graph s.values)
    (hpins : ∀ p ∈ pins, ∃ owner kind, w p = some (.input owner kind)) :
    Wired w (pins.foldl pull s).graph (pins.foldl pull s).values ∧
      (pins.foldl pull s).graph.nextId = s.graph.nextId := by
  induction pins generalizing s with
  | nil => exact ⟨h, rfl⟩
  | cons pin pins ih =>
      obtain ⟨owner, kind, hpin⟩ := hpins pin List.mem_cons_self
      obtain ⟨hw, hnext⟩ := ih (wired_pull h hpin) fun p hp => hpins p (List.mem_cons_of_mem _ hp)
      exact ⟨hw, hnext.trans (nextId_pull s pin)⟩

/-! ## Services -/

theorem graph_resolveAsset (s : Scene) (kind : AssetKind) (path : Option String) :
    (s.resolveAsset kind path).2.graph = s.graph ∧
      (s.resolveAsset kind path).2.values = s.values := by
  unfold resolveAsset
  split
  · exact ⟨rfl, rfl⟩
  · split <;> exact ⟨rfl, rfl⟩
  · exact ⟨rfl, rfl⟩
  · split <;> exact ⟨rfl, rfl⟩
  · split <;> exact ⟨rfl, rfl⟩

theorem graph_resolvePrimitive (s : Scene) (shape : PrimitiveShape) :
    (s.resolvePrimitive shape).2.graph = s.graph ∧
      (s.resolvePrimitive shape).2.values = s.values := by
  unfold resolvePrimitive
  split <;> exact ⟨rfl, rfl⟩

end Scene

end DrawGraph
