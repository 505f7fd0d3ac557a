import DrawGraph.Proofs.UiNode.Base
import DrawGraph.Proofs.UiNode.Load
import DrawGraph.Proofs.UiNode.Renewal
import DrawGraph.Proofs.UiNode.Trim

/-!
# The turn of a UI node

In an update the UI nodes take their turns one after another. In its turn a UI node fills the boxes
of its linked inputs, or that of its output if it gives the time. The graph changes only where a
draw node finds another shader linked to it than the one that it is bound to: its inputs for
variables may go, and others may come.
-/

namespace DrawGraph

namespace Graph

variable {lost lost' made made' : Id → Prop} {tied tied' : Id → Id → Prop} {g g' g'' : Graph}
  {id j : Id}

theorem hasNode_eq_outline (g : Graph) (id : Id) : g.hasNode id = (g.outline id).isSome := by
  rw [outline, Option.isSome_map, hasNode_eq]

/-- Of the graph only nodes in `lost` have gone, with the edges that touch them; the new nodes are
in `made`, and each new edge leads from an identity to a new input that is tied to it. -/
structure Refits (lost made : Id → Prop) (tied : Id → Id → Prop) (g g' : Graph) : Prop where
  consistent : g'.Consistent
  nextId : g.nextId ≤ g'.nextId
  outline : ∀ j, g.hasNode j → g'.hasNode j → g'.outline j = g.outline j
  lost : ∀ j, g.hasNode j → g'.hasNode j ∨ lost j
  made : ∀ j, g'.hasNode j → g.hasNode j ∨ g.nextId ≤ j ∧ made j
  cut : ∀ k f, g.edge? k = some f →
    g'.edge? k = some f ∨ g'.hasNode f.source = false ∨ g'.hasNode f.target = false
  drawn : ∀ k f, g'.edge? k = some f →
    g.edge? k = some f ∨ ∃ owner p, tied owner p ∧ f = ⟨k, owner, p, .internal⟩

namespace Refits

theorem refl (hc : g.Consistent) : Refits lost made tied g g where
  consistent := hc
  nextId := UInt32.le_refl _
  outline _ _ _ := rfl
  lost _ h := Or.inl h
  made _ h := Or.inl h
  cut _ _ h := Or.inl h
  drawn _ _ h := Or.inl h

theorem mono (h : Refits lost made tied g g') (hlost : ∀ j, lost j → lost' j)
    (hmade : ∀ j, made j → made' j) (htied : ∀ owner p, tied owner p → tied' owner p) :
    Refits lost' made' tied' g g' where
  consistent := h.consistent
  nextId := h.nextId
  outline := h.outline
  lost j hj := (h.lost j hj).imp_right (hlost j)
  made j hj := (h.made j hj).imp_right fun hnew => ⟨hnew.1, hmade j hnew.2⟩
  cut := h.cut
  drawn k f hf := (h.drawn k f hf).imp_right fun ⟨owner, p, hp, heq⟩ =>
    ⟨owner, p, htied _ _ hp, heq⟩

/-- A node that has gone does not come again. -/
theorem hasNode_of_hasNode (h : Refits lost made tied g g') (hj : g'.hasNode j)
    (hlt : j < g.nextId) : g.hasNode j := by
  rcases h.made j hj with hold | ⟨hle, _⟩
  · exact hold
  · exact absurd (UInt32.lt_of_lt_of_le hlt hle) (UInt32.lt_irrefl _)

theorem hasNode_eq_false (h : Refits lost made tied g g') (hj : g.hasNode j = false)
    (hlt : j < g.nextId) : g'.hasNode j = false := by
  rw [Bool.eq_false_iff] at hj ⊢
  exact fun hnode => hj (h.hasNode_of_hasNode hnode hlt)

theorem trans (hc : g.Consistent) (h : Refits lost made tied g g')
    (h' : Refits lost made tied g' g'') : Refits lost made tied g g'' where
  consistent := h'.consistent
  nextId := UInt32.le_trans h.nextId h'.nextId
  outline j hj hj'' := by
    have hlt := UInt32.lt_of_lt_of_le (hc.node_lt j hj) h.nextId
    have hj' := h'.hasNode_of_hasNode hj'' hlt
    exact (h'.outline j hj' hj'').trans (h.outline j hj hj')
  lost j hj := by
    rcases h.lost j hj with hj | hj
    · exact h'.lost j hj
    · exact Or.inr hj
  made j hj := by
    rcases h'.made j hj with hj | ⟨hle, hj⟩
    · exact h.made j hj
    · exact Or.inr ⟨UInt32.le_trans h.nextId hle, hj⟩
  cut k f hf := by
    have hgone {j : Id} (hj : g.hasNode j) (hno : g'.hasNode j = false) : g''.hasNode j = false :=
      h'.hasNode_eq_false hno (UInt32.lt_of_lt_of_le (hc.node_lt j hj) h.nextId)
    obtain ⟨hsource, htarget⟩ := hc.ends k f hf
    rcases h.cut k f hf with hf | hno | hno
    · exact h'.cut k f hf
    · exact Or.inr (Or.inl (hgone hsource hno))
    · exact Or.inr (Or.inr (hgone htarget hno))
  drawn k f hf := by
    rcases h'.drawn k f hf with hf | hnew
    · exact h.drawn k f hf
    · exact Or.inr hnew

theorem withOutbox (h : Refits lost made tied g g') (events : List Event) :
    Refits lost made tied g { g' with outbox := events } :=
  ⟨h.consistent.withOutbox events, h.nextId, h.outline, h.lost, h.made, h.cut, h.drawn⟩

/-- What is still there leads where it led, if all that it led to is still there and it is tied to
nothing. -/
theorem neighbors_perm (h : Refits lost made tied g g') (hc : g.Consistent) (hj : g'.hasNode j)
    (hkept : ∀ t ∈ g.neighbors j, g'.hasNode t) (hfree : ∀ p, ¬ tied j p) :
    (g'.neighbors j).Perm (g.neighbors j) := by
  have hfrom : g'.edgesFrom j = g.edgesFrom j := by
    refine edgesFrom_eq h.consistent (pairwise_edgesFrom hc j) fun f => ?_
    rw [mem_edgesFrom]
    constructor
    · rintro ⟨⟨k, hk⟩, rfl⟩
      have htarget := hkept f.target (hc.mem_neighbors.2 ⟨f, mem_edgesFrom.2 ⟨⟨k, hk⟩, rfl⟩, rfl⟩)
      rcases h.cut k f hk with hk | hno | hno
      · exact ⟨⟨k, hk⟩, rfl⟩
      · rw [hj] at hno
        cases hno
      · rw [htarget] at hno
        cases hno
    · rintro ⟨⟨k, hk⟩, rfl⟩
      rcases h.drawn k f hk with hk | ⟨owner, p, hp, rfl⟩
      · exact ⟨⟨k, hk⟩, rfl⟩
      · exact absurd hp (hfree p)
  rw [(h.consistent.perm j).congr_left, hfrom]
  exact (hc.perm j).symm

theorem addsNode {n : Node} (ha : g.AddsNode n id g') (hid : made id) :
    Refits lost made tied g g' where
  consistent := ha.consistent
  nextId := ha.nextId_le
  outline j hj _ := by
    rw [Graph.outline, ha.node?, if_neg, ← Graph.outline]
    rintro rfl
    rw [ha.fresh] at hj
    cases hj
  lost j hj := Or.inl ((ha.hasNode j).2 (Or.inr hj))
  made j hj := by
    rcases (ha.hasNode j).1 hj with rfl | hj
    · exact Or.inr ⟨ha.id_eq ▸ UInt32.le_refl _, hid⟩
    · exact Or.inl hj
  cut k f hf := Or.inl ((ha.edge? k).trans hf)
  drawn k f hf := Or.inl ((ha.edge? k).symm.trans hf)

theorem addsEdge {owner p k : Id} (he : g.AddsEdge ⟨k, owner, p, .internal⟩ g')
    (htied : tied owner p) : Refits lost made tied g g' where
  consistent := he.consistent
  nextId := he.nextId_le
  outline j _ _ := by rw [Graph.outline, he.node?, ← Graph.outline]
  lost j hj := Or.inl (by rwa [Graph.hasNode_eq, he.node?, ← Graph.hasNode_eq])
  made j hj := Or.inl (by rwa [Graph.hasNode_eq, he.node?, ← Graph.hasNode_eq] at hj)
  cut i f hf := Or.inl (he.edge?_of_some hf)
  drawn i f hf := by
    rw [he.edge?] at hf
    split at hf
    · next hi =>
      obtain rfl := Option.some.inj hf
      exact Or.inr ⟨owner, p, htied, by rw [hi]⟩
    · exact Or.inl hf

end Refits

end Graph

namespace Scene

open DrawGraph.Graph

variable {lost made : Id → Prop} {tied : Id → Id → Prop} {s s' : Scene} {i o p id : Id}
  {pins : List Id} {u v : Value}

/-! ## Taking over what is linked -/

theorem Refills.hasNode_eq (h : Refills pins s s') (j : Id) :
    s'.graph.hasNode j = s.graph.hasNode j := by
  rw [hasNode_eq_outline, h.outline, ← hasNode_eq_outline]

theorem Refills.refits (h : Refills pins s s') (hc : s'.graph.Consistent) :
    s.graph.Refits lost made tied s'.graph where
  consistent := hc
  nextId := h.nextId ▸ UInt32.le_refl _
  outline j _ _ := h.outline j
  lost j hj := Or.inl (by rwa [h.hasNode_eq])
  made j hj := Or.inl (by rwa [h.hasNode_eq] at hj)
  cut k f hf := Or.inl (by rwa [edge?, h.edges])
  drawn k f hf := Or.inl (by rwa [edge?, h.edges] at hf)

theorem Trims.refits {reset : List Id} (h : Trims pins reset s s') (hlost : ∀ p ∈ pins, lost p) :
    s.graph.Refits lost made tied s'.graph where
  consistent := h.consistent
  nextId := h.nextId ▸ UInt32.le_refl _
  outline j _ hj' := by
    rw [Graph.hasNode_eq, h.node?] at hj'
    rw [outline, h.node?]
    split at hj'
    · cases hj'
    · next hno =>
      rw [if_neg hno, Option.map_map, outline]
      congr 1
      funext n
      dsimp only [Function.comp]
      split <;> rfl
  lost j hj := by
    by_cases hmem : j ∈ pins
    · exact Or.inr (hlost j hmem)
    · exact Or.inl (by rwa [h.hasNode_eq hmem])
  made j hj := by
    by_cases hmem : j ∈ pins
    · rw [Graph.hasNode_eq, h.node?, if_pos hmem] at hj
      cases hj
    · exact Or.inl (by rwa [h.hasNode_eq hmem] at hj)
  cut k f hf := by
    have hgone {j : Id} (hj : j ∈ pins) : s'.graph.hasNode j = false := by
      rw [Graph.hasNode_eq, h.node?, if_pos hj]
      rfl
    by_cases hsource : f.source ∈ pins
    · exact Or.inr (Or.inl (hgone hsource))
    · by_cases htarget : f.target ∈ pins
      · exact Or.inr (Or.inr (hgone htarget))
      · exact Or.inl ((h.edge? k f).2 ⟨hf, hsource, htarget⟩)
  drawn k f hf := Or.inl (h.edge?_of_some hf)

theorem source?_eq_none (hc : s.graph.Consistent) (hnil : s.graph.neighbors i = []) :
    s.source? i = none := by
  rw [source?, if_pos (hc.outDegree_eq_zero_iff.2 hnil)]

theorem source?_eq_some (hc : s.graph.Consistent) (hlink : s.graph.neighbors i = [o]) :
    s.source? i = some o := by
  rw [source?, if_neg, hlink]
  · rfl
  · rw [hc.outDegree_eq_zero_iff, hlink]
    exact List.cons_ne_nil _ _

/-- A linked input gets the value of the output as one of its own kind, or keeps what it has. -/
theorem box_pull_eq (hc : s.graph.Consistent) (hlink : s.graph.neighbors i = [o])
    (hu : s.values.get? i = some u) (hv : s.values.get? o = some v) :
    (s.pull i).values.get? i = some ((v.coerce u.kind).getD u) := by
  unfold pull
  rw [source?_eq_some hc hlink, Option.bind_some, hv]
  dsimp only
  rw [hu, Option.map_some, Option.getD_some]
  split
  · next w hw => rw [get?_write, if_pos rfl, hw, Option.getD_some]
  · next hw => rw [hu, hw, Option.getD_none]

theorem consistent_foldl_pull (hc : s.graph.Consistent) (pins : List Id) :
    (pins.foldl pull s).graph.Consistent := by
  have hmoves : Moves (fun _ => False) (· ∈ pins) s (pins.foldl pull s) :=
    moves_foldl_pull s fun _ hp => hp
  exact (hmoves.consistent hc).1

/-- Inputs are filled one after another, but none of them is filled from another one. -/
theorem box_foldl_pull (hc : s.graph.Consistent) (hnodup : pins.Nodup) (hi : i ∈ pins)
    (hlink : s.graph.neighbors i = [o]) (ho : o ∉ pins) (hu : s.values.get? i = some u)
    (hv : s.values.get? o = some v) :
    (pins.foldl pull s).values.get? i = some ((v.coerce u.kind).getD u) := by
  induction pins generalizing s with
  | nil => cases hi
  | cons pin pins ih =>
      obtain ⟨hnew, hnodup⟩ := List.nodup_cons.1 hnodup
      obtain ⟨hne, ho⟩ := not_or.1 (List.mem_cons.not.1 ho)
      rw [List.foldl_cons]
      rcases List.mem_cons.1 hi with rfl | hi
      · rw [(refills_foldl_pull pins (s.pull i)).box i hnew, box_pull_eq hc hlink hu hv]
      · have hfirst : Refills [pin] s (s.pull pin) := refills_pull List.mem_cons_self s
        have hother : i ∉ [pin] := fun h => hnew (List.mem_singleton.1 h ▸ hi)
        refine ih (consistent_foldl_pull hc [pin]) hnodup hi ?_ ho ?_ ?_
        · rw [neighbors_pull, hlink]
        · rw [hfirst.box i hother, hu]
        · rw [hfirst.box o (List.mem_singleton.not.2 hne), hv]

theorem box_foldl_pull_of_nil (hc : s.graph.Consistent) (hnil : s.graph.neighbors i = []) :
    (pins.foldl pull s).values.get? i = s.values.get? i := by
  induction pins generalizing s with
  | nil => rfl
  | cons pin pins ih =>
      have hnext : (s.pull pin).graph.Consistent := consistent_foldl_pull hc [pin]
      rw [List.foldl_cons, ih hnext (by rw [neighbors_pull, hnil])]
      by_cases hpin : i = pin
      · subst hpin
        unfold pull
        rw [source?_eq_none hc hnil]
        rfl
      · have hfirst : Refills [pin] s (s.pull pin) := refills_pull List.mem_cons_self s
        exact hfirst.box i (List.mem_singleton.not.2 hpin)

/-! ## Making inputs -/

/-- An input that cannot be made leaves at most the node with the last id but one behind. -/
theorem addInput_leaves (hc : s.graph.Consistent) (hid : s.graph.hasNode id) (v : Value) :
    (addInput id v).Ensures s
      (fun _ s' => s'.graph = s.graph ∨
        ∃ n pin, s.graph.AddsNode n pin s'.graph ∧ pin + 1 = lastId)
      fun _ _ => True := by
  rw [addInput_eq]
  refine (addPin_ensures hc (fun _ _ => Or.inl rfl) fun err pin g₁ ha herr => ?_).mono_ok
    fun _ _ _ => trivial
  refine Or.inr ⟨_, pin, ha, ?_⟩
  have hlast := nextId_of_addEdge_error ((ha.hasNode id).2 (Or.inr hid))
    ((ha.hasNode pin).2 (Or.inl rfl)) herr
  rw [← hlast, ha.nextId, ha.id_eq]

end Scene

namespace Draw

open Scene DrawGraph.Graph

variable {lost made : Id → Prop} {tied : Id → Id → Prop} {d : Draw} {s : Scene}

theorem params_build (d : Draw) (s : Scene) (vars : List (String × BindingType)) :
    ∀ p ∈ d.params, p ∈ (d.build s vars).1.params := by
  obtain ⟨bs, hd, _⟩ := d.build_eq s vars
  intro p hp
  rw [hd, params, List.map_append]
  exact List.mem_append_left _ hp

/-- Inputs for variables come with the edges to them. When ids run out, a node may be left without
its edge. -/
theorem build_refits (hc : s.graph.Consistent) (hid : s.graph.hasNode d.id)
    {vars : List (String × BindingType)}
    (hmade : ∀ p ∈ (d.build s vars).1.params, made p ∧ tied d.id p)
    (hlast : ∀ j, j + 1 = lastId → made j) :
    s.graph.Refits (fun _ => False) made tied (d.build s vars).2.graph := by
  induction vars generalizing d s with
  | nil => exact .refl hc
  | cons var vars ih =>
      obtain ⟨name, type⟩ := var
      have hadd := addInput_makes hc d.id (.ofKind type.kind)
      have hleave := addInput_leaves hc hid (.ofKind type.kind)
      rw [build] at hmade ⊢
      split at hmade
      · next pin s' hx =>
        obtain ⟨g₁, edge, ha, he⟩ := hadd.of_ok hx
        obtain ⟨hmade', htied⟩ := hmade pin (params_build _ s' vars pin (by simp [params]))
        have hnode : s'.graph.hasNode d.id := by
          rw [hasNode_eq, he.node?, ← hasNode_eq]
          exact (ha.hasNode d.id).2 (Or.inr hid)
        have hone : s.graph.Refits (fun _ => False) made tied s'.graph :=
          (Refits.addsNode ha hmade').trans hc (.addsEdge he htied)
        exact hone.trans hc (ih hone.consistent hnode hmade)
      · next err s' hx =>
        rcases hleave.of_error hx with hsame | ⟨n, pin, ha, hpin⟩
        · have hrest := ih (hsame ▸ hc) (hsame ▸ hid) hmade
          rwa [hsame] at hrest
        · have hone : s.graph.Refits (fun _ => False) made tied s'.graph :=
            .addsNode ha (hlast pin hpin)
          exact hone.trans hc (ih hone.consistent ((ha.hasNode d.id).2 (Or.inr hid)) hmade)

/-- The pins that a draw node keeps whatever shader it follows are none of those for variables. -/
theorem params_apart (h : (UiNode.draw d).pins.Nodup) :
    d.params.Nodup ∧ d.shader ∉ d.params ∧ d.model ∉ d.params ∧ d.output ∉ d.params := by
  simp only [UiNode.pins, UiNode.inputs, UiNode.outputs, List.cons_append, List.nodup_cons,
    List.mem_cons, List.mem_append, not_or] at h
  obtain ⟨⟨_, hshader, _⟩, ⟨hmodel, _⟩, hrest⟩ := h
  obtain ⟨hnodup, _, hout⟩ := List.nodup_append.1 hrest
  exact ⟨hnodup, hshader, hmodel, fun hmem => hout _ hmem _ (List.mem_singleton_self _) rfl⟩

theorem mem_pins_of_params {p : Id} (hp : p ∈ d.params) : p ∈ (UiNode.draw d).pins :=
  mem_pins.2 (Or.inr (Or.inr (Or.inl hp)))

theorem nodup_params (h : (d.id :: (UiNode.draw d).pins).Nodup) : (d.id :: d.params).Nodup := by
  obtain ⟨hid, hpins⟩ := List.nodup_cons.1 h
  exact List.nodup_cons.2 ⟨fun hmem => hid (mem_pins_of_params hmem), (params_apart hpins).1⟩

section Sync

variable (hc : s.graph.Consistent) (hnodup : (d.id :: (UiNode.draw d).pins).Nodup)
  (hlive : ∀ p ∈ d.id :: (UiNode.draw d).pins, s.graph.hasNode p)

include hc hnodup hlive

/-- What it takes to have inputs for other variables. -/
theorem sync_refits {shader : Int32} (hlost : ∀ p ∈ d.params, lost p)
    (hmade : ∀ p ∈ (d.sync s shader).1.params, made p ∧ tied d.id p)
    (hlast : ∀ j, j + 1 = lastId → made j) :
    s.graph.Refits lost made tied (d.sync s shader).2.graph := by
  obtain ⟨hid, hparams⟩ := List.nodup_cons.1 (nodup_params hnodup)
  unfold sync at hmade ⊢
  dsimp only at hmade ⊢
  split at hmade
  · next hsame =>
    rw [if_pos hsame]
    exact .refl hc
  · next hother =>
    rw [if_neg hother]
    have hdown := trims_teardown (d := { d with bound := shader }) hc hparams
      fun p hp => hlive p (List.mem_cons_of_mem _ (mem_pins_of_params hp))
    have hnode := (hdown.hasNode_eq hid).trans (hlive d.id List.mem_cons_self)
    have hbuilt := build_refits (d := ({ d with bound := shader }.teardown s).1)
      hdown.consistent hnode hmade hlast
    exact (hdown.refits hlost).trans hc (hbuilt.mono (fun _ h => h.elim) (fun _ h => h)
      fun _ _ h => h)

/-- Pins that still are there have kept their boxes. -/
theorem box_sync {shader : Int32} {p : Id} (hp : p < s.graph.nextId) (hne : p ≠ d.id)
    (hkept : p ∈ d.params → (d.sync s shader).2.graph.hasNode p) :
    (d.sync s shader).2.values.get? p = s.values.get? p := by
  by_cases hmem : p ∈ d.params
  · have hnode := hkept hmem
    unfold sync at hnode ⊢
    dsimp only at hnode ⊢
    split
    · rfl
    · next hother =>
      rw [if_neg hother] at hnode
      have hdown := trims_teardown (d := { d with bound := shader }) hc
        (params_apart hnodup.of_cons).1
        fun p hp => hlive p (List.mem_cons_of_mem _ (mem_pins_of_params hp))
      have hbuilt : Moves (· = d.id) (fun _ => False) _
          (build ({ d with bound := shader }.teardown s).1
            ({ d with bound := shader }.teardown s).2 (reflected s shader)).2 :=
        moves_build ({ d with bound := shader }.teardown s).1 _ _
      have hgone : p ∈ ({ d with bound := shader } : Draw).params := hmem
      rw [(hbuilt.alters hdown.consistent).hasNode_eq (hdown.nextId.symm ▸ hp) fun h => h,
        Graph.hasNode_eq, hdown.node?, if_pos hgone] at hnode
      cases hnode
  · have hmoves : Moves (· = d.id) (· ∈ d.params) s (d.sync s shader).2 :=
      d.moves_sync s shader fun b hb => List.mem_map_of_mem hb
    exact (hmoves.spares hc hp hne hmem).box

end Sync

/-- A draw node finds another shader linked to it than the one that it is bound to. -/
structure Reshaded (d : Draw) (s s' : Scene) : Prop where
  linked : s.graph.neighbors d.shader ≠ []
  index : s'.indexIn d.shader ≠ d.bound

end Draw

namespace UiNode

open Scene DrawGraph.Graph

variable {n : UiNode} {s : Scene} {clock : Clock} {p : Id}

theorem eq_time_of_kind (h : n.kind = .time) : ∃ id output, n = time id output := by
  cases n with
  | time id output => exact ⟨id, output, rfl⟩
  | binary op => cases op <;> cases h
  | constant kind => cases kind <;> cases h
  | asset kind => cases kind <;> cases h
  | _ => cases h

/-- The three courses that a turn takes. -/
inductive Turns (n : UiNode) (clock : Clock) (s : Scene) : UiNode × Scene → Prop
  | tick {id output : Id} (h : n = time id output) :
      Turns n clock s (n, s.write output (.float clock.elapsed))
  | take (h : n.kind ≠ .time) : Turns n clock s (n, n.inputs.foldl pull s)
  | follow {d : Draw} {shader : Int32} (h : n = draw d)
      (hlinked : (n.inputs.foldl pull s).graph.neighbors d.shader ≠ [])
      (hshader : (n.inputs.foldl pull s).indexIn d.shader = shader) (hnew : shader ≠ d.bound) :
      Turns n clock s (draw (d.sync (n.inputs.foldl pull s) shader).1,
        (d.sync (n.inputs.foldl pull s) shader).2)

theorem turns_onUpdate (hc : s.graph.Consistent) (n : UiNode) (clock : Clock) :
    n.Turns clock s (n.onUpdate clock s) := by
  have hpulled := consistent_foldl_pull hc n.inputs
  cases n with
  | time id output => exact .tick rfl
  | draw d =>
      unfold onUpdate
      dsimp only
      split
      · exact .take (by rintro ⟨⟩)
      · next hlinked =>
        split
        · exact .take (by rintro ⟨⟩)
        · next hnew =>
          refine .follow rfl (fun hnil => hlinked ?_) rfl hnew
          rw [source?_eq_none hpulled hnil, Option.isNone_none]
  | binary op =>
      refine .take ?_
      cases op <;> rintro ⟨⟩
  | constant kind =>
      refine .take ?_
      cases kind <;> rintro ⟨⟩
  | asset kind =>
      refine .take ?_
      cases kind <;> rintro ⟨⟩
  | sine | primitive | camera | transform | renderTarget => exact .take (by rintro ⟨⟩)

section Turn

variable {r : UiNode × Scene} (hturn : n.Turns clock s r) (hc : s.graph.Consistent)
  (hnodup : (n.id :: n.pins).Nodup) (hlive : ∀ p ∈ n.id :: n.pins, s.graph.hasNode p)

include hturn hc hnodup hlive

omit hnodup hlive in
/-- A UI node fills its inputs, and its output if it gives the time. -/
theorem Turns.box_of_notMem (hp : p < s.graph.nextId) (hne : p ≠ n.id) (hin : p ∉ n.inputs)
    (htime : n.kind = .time → p ∉ n.outputs) : r.2.values.get? p = s.values.get? p := by
  cases hturn with
  | @tick id output h =>
      subst h
      have hout : p ≠ output := List.mem_singleton.not.1 (htime rfl)
      rw [get?_write, if_neg hout]
  | take => exact (refills_foldl_pull n.inputs s).box p hin
  | @follow d shader h =>
      subst h
      have hpulled : Moves (· = d.id) (· ∈ (draw d).inputs) s ((draw d).inputs.foldl pull s) :=
        moves_foldl_pull s fun _ hp => hp
      have hmoves := hpulled.trans (d.moves_sync _ shader fun b hb =>
        List.mem_cons_of_mem _ (List.mem_cons_of_mem _ (List.mem_map_of_mem hb)))
      exact (Moves.spares hc hmoves hp hne hin).box

omit hc hnodup hlive in
theorem Turns.box_time (htime : n.kind = .time) (hp : p ∈ n.outputs) :
    r.2.values.get? p = some (.float clock.elapsed) := by
  cases hturn with
  | @tick id output h =>
      subst h
      rw [List.mem_singleton.1 hp, get?_write, if_pos rfl]
  | take h => exact absurd htime h
  | @follow d shader h =>
      subst h
      cases htime

/-- What the inputs that are still there have taken over stays. -/
theorem Turns.box_input (hp : p ∈ n.inputs)
    (hkept : ∀ d, n = draw d → p ∈ d.params → r.2.graph.hasNode p) :
    r.2.values.get? p = (n.inputs.foldl pull s).values.get? p := by
  cases hturn with
  | @tick id output h =>
      subst h
      cases hp
  | take => rfl
  | @follow d shader h =>
      subst h
      have hpulled := refills_foldl_pull (draw d).inputs s
      have hmem : p ∈ (draw d).pins := List.mem_append_left _ hp
      refine Draw.box_sync (consistent_foldl_pull hc _) hnodup
        (fun p hp => (hpulled.hasNode_eq p).trans (hlive p hp)) ?_ ?_ (hkept d rfl)
      · rw [hpulled.nextId]
        exact hc.node_lt p (hlive p (List.mem_cons_of_mem _ hmem))
      · rintro rfl
        exact (List.nodup_cons.1 hnodup).1 hmem

theorem Turns.reshaded {d : Draw} (hd : n = draw d)
    (hlinked : (n.inputs.foldl pull s).graph.neighbors d.shader ≠ [])
    (hnew : (n.inputs.foldl pull s).indexIn d.shader ≠ d.bound) : d.Reshaded s r.2 := by
  -- the shader pin stays whatever becomes of the inputs for variables
  have hbox : r.2.values.get? d.shader = (n.inputs.foldl pull s).values.get? d.shader := by
    subst hd
    refine hturn.box_input hc hnodup hlive List.mem_cons_self ?_
    rintro _ ⟨⟩ hmem
    exact absurd hmem (Draw.params_apart hnodup.of_cons).2.1
  refine ⟨?_, ?_⟩
  · rwa [(refills_foldl_pull n.inputs s).neighbors] at hlinked
  · rwa [Draw.indexIn_of_box hbox]

/-- Only a draw node that finds another shader becomes another UI node. -/
theorem Turns.self_or :
    r.1 = n ∨ ∃ d d', n = draw d ∧ d.Reshaded s r.2 ∧ r.1 = draw d' := by
  have hreshaded {d : Draw} := hturn.reshaded hc hnodup hlive (d := d)
  cases hturn with
  | tick => exact Or.inl rfl
  | take => exact Or.inl rfl
  | @follow d shader h hlinked hshader hnew =>
      exact Or.inr ⟨d, _, h, hreshaded h hlinked (hshader ▸ hnew), rfl⟩

/-- The graph changes only where another shader is found. -/
theorem Turns.refits {lost made : Id → Prop} {tied : Id → Id → Prop}
    (hlost : ∀ d, n = draw d → d.Reshaded s r.2 → ∀ p ∈ d.params, lost p)
    (hmade : ∀ d d', n = draw d → d.Reshaded s r.2 → r.1 = draw d' →
      (∀ p ∈ d'.params, made p ∧ tied n.id p) ∧ ∀ j, j + 1 = lastId → made j) :
    s.graph.Refits lost made tied r.2.graph := by
  have hpulled := refills_foldl_pull n.inputs s
  have hc' := consistent_foldl_pull hc n.inputs
  have hreshaded {d : Draw} := hturn.reshaded hc hnodup hlive (d := d)
  cases hturn with
  | @tick id output h =>
      exact (refills_write (List.mem_singleton_self output) s _).refits
        (consistent_write hc output _)
  | take => exact hpulled.refits hc'
  | @follow d shader h hlinked hshader hnew =>
      have hfound := hreshaded h hlinked (hshader ▸ hnew)
      obtain ⟨hmade, hlast⟩ := hmade d _ h hfound rfl
      have hgone := hlost d h hfound
      subst h
      have hsync := Draw.sync_refits hc' hnodup
        (fun p hp => (hpulled.hasNode_eq p).trans (hlive p hp)) hgone hmade hlast
      exact (hpulled.refits hc').trans hc hsync

end Turn

end UiNode

end DrawGraph
