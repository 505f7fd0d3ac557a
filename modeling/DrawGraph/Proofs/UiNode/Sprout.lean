import DrawGraph.Proofs.UiNode.Base
import DrawGraph.Proofs.UiNode.Placing
import DrawGraph.Proofs.UiNode.Trim

/-!
# Inputs for a shader that is linked

A draw node in its base form that hears of a link to its shader pin makes an input for each variable
of the shader. Nothing that was there goes, and what is new is the inputs with the edges to them.
-/

namespace DrawGraph

namespace Graph

variable {g g' g'' : Graph} {owner id : Id} {pins pins' : List Id}

/-- `g'` is `g` with more inputs of one identity. -/
structure Sprouts (owner : Id) (pins : List Id) (g g' : Graph) : Prop where
  consistent : g'.Consistent
  outbox : g'.outbox = g.outbox
  node : ∀ id n, g.node? id = some n → g'.node? id = some n
  edge : ∀ i f, g.edge? i = some f → g'.edge? i = some f
  sprout : ∀ i f, g'.edge? i = some f →
    g.edge? i = some f ∨ ∃ p ∈ pins, f = ⟨i, owner, p, .internal⟩
  fresh : ∀ p ∈ pins, g.hasNode p = false

namespace Sprouts

theorem refl (hc : g.Consistent) (owner : Id) : Sprouts owner [] g g :=
  ⟨hc, rfl, fun _ _ h => h, fun _ _ h => h, fun _ _ h => Or.inl h, fun _ h => nomatch h⟩

theorem hasNode (h : Sprouts owner pins g g') (hid : g.hasNode id) : g'.hasNode id := by
  rw [hasNode_eq] at hid ⊢
  obtain ⟨n, hn⟩ := Option.isSome_iff_exists.1 hid
  rw [h.node id n hn]
  rfl

theorem trans (h : Sprouts owner pins g g') (h' : Sprouts owner pins' g' g'') :
    Sprouts owner (pins ++ pins') g g'' where
  consistent := h'.consistent
  outbox := h'.outbox.trans h.outbox
  node id n hn := h'.node id n (h.node id n hn)
  edge i f hf := h'.edge i f (h.edge i f hf)
  sprout i f hf := by
    rcases h'.sprout i f hf with hf | ⟨p, hp, rfl⟩
    · exact (h.sprout i f hf).imp_right fun ⟨p, hp, heq⟩ => ⟨p, List.mem_append_left _ hp, heq⟩
    · exact Or.inr ⟨p, List.mem_append_right _ hp, rfl⟩
  fresh p hp := by
    rcases List.mem_append.1 hp with hp | hp
    · exact h.fresh p hp
    · have hfresh := h'.fresh p hp
      rw [Bool.eq_false_iff] at hfresh ⊢
      exact fun hnode => hfresh (h.hasNode hnode)

theorem addsNode {n : Node} (ha : g.AddsNode n id g') (owner : Id) :
    Sprouts owner [] g g' where
  consistent := ha.consistent
  outbox := ha.outbox
  node j m hm := by
    rw [ha.node?, if_neg, hm]
    rintro rfl
    have hfresh := ha.fresh
    rw [hasNode_eq, hm] at hfresh
    cases hfresh
  edge i f hf := (ha.edge? i).trans hf
  sprout i f hf := Or.inl ((ha.edge? i).symm.trans hf)
  fresh _ h := nomatch h

theorem addsInput {n : Node} {edge : Id} (ha : g.AddsNode n id g')
    (he : g'.AddsEdge ⟨edge, owner, id, .internal⟩ g'') : Sprouts owner [id] g g'' where
  consistent := he.consistent
  outbox := by
    rw [he.outbox, ha.outbox]
    exact List.append_nil _
  node j m hm := (he.node? j).trans ((addsNode ha owner).node j m hm)
  edge i f hf := he.edge?_of_some ((addsNode ha owner).edge i f hf)
  sprout i f hf := by
    rw [he.edge?] at hf
    split at hf
    · next hi =>
      obtain rfl := Option.some.inj hf
      exact Or.inr ⟨id, List.mem_singleton_self id, by rw [hi]⟩
    · exact Or.inl ((ha.edge? i).symm.trans hf)
  fresh p hp := by
    obtain rfl := List.mem_singleton.1 hp
    exact ha.fresh

end Sprouts

end Graph

/-- With ids enough an input is made. -/
theorem Scene.addInput_of_room {s : Scene} {id : Id} (hc : s.graph.Consistent)
    (hid : s.graph.hasNode id) (hroom : s.graph.nextId.toNat + 2 ≤ Graph.lastId.toNat)
    (v : Value) : ∃ pin t, (addInput id v).on s = (.ok pin, t) := by
  have hne : s.graph.nextId ≠ Graph.lastId := Graph.ne_lastId_of_lt (by omega)
  obtain ⟨pin, g₁, hnode⟩ := Graph.addNode_eq_ok hne (pinNode .input v)
  have ha := hc.addNode hnode
  have hroom' : g₁.nextId.toNat < Graph.lastId.toNat := by
    rw [ha.toNat_nextId]
    omega
  obtain ⟨edge, g₂, hedge⟩ := Graph.addEdge_eq_ok ((ha.hasNode id).2 (Or.inr hid))
    ((ha.hasNode pin).2 (Or.inl rfl)) (Graph.ne_lastId_of_lt hroom')
  have hon {α : Type} {f : Graph → Except GraphError (α × Graph)} {t : Scene} {a : α} {g : Graph}
      (hf : f t.graph = .ok (a, g)) : (onGraph f).on t = (.ok a, { t with graph := g }) := by
    rw [onGraph, Attempt.on_of, hf]
  exact ⟨pin, _, (Attempt.on_bind_of_ok (hon hnode)).trans (Attempt.on_bind_of_ok (hon hedge))⟩

namespace Draw

open DrawGraph.Graph

variable {d : Draw} {s : Scene}

theorem sprouts_of_strews {s' : Scene} (hc : s.graph.Consistent) (h : Scene.Strews s s')
    (owner : Id) : Sprouts owner [] s.graph s'.graph := by
  rcases h with hsame | ⟨n, id, ha⟩
  · rw [hsame]
    exact .refl hc owner
  · exact .addsNode ha owner

/-- What is made for the variables of a shader; when no input is refused, nothing else. -/
theorem build_sprouts (hc : s.graph.Consistent) (d : Draw) (vars : List (String × BindingType)) :
    ∃ bs, (d.build s vars).1 = { d with bindings := d.bindings ++ bs } ∧
      Sprouts d.id (bs.map (·.pin)) s.graph (d.build s vars).2.graph ∧
        (BuildServed d.id s vars → ∀ id, (d.build s vars).2.graph.hasNode id →
          s.graph.hasNode id ∨ id ∈ bs.map (·.pin)) := by
  induction vars generalizing d s with
  | nil =>
      exact ⟨[], by rw [build, List.append_nil], .refl hc d.id, fun _ _ h => Or.inl h⟩
  | cons var vars ih =>
      obtain ⟨name, type⟩ := var
      have hadd := Scene.addInput_makes hc d.id (.ofKind type.kind)
      rw [build, buildServed_cons]
      split
      · next pin s' hx =>
        obtain ⟨g₁, edge, ha, he⟩ := hadd.of_ok hx
        have hone : Sprouts d.id [pin] s.graph s'.graph := .addsInput ha he
        obtain ⟨bs, hd, hbs, hall⟩ :=
          ih hone.consistent { d with bindings := d.bindings ++ [⟨pin, name, type⟩] }
        refine ⟨⟨pin, name, type⟩ :: bs, ?_, hone.trans hbs, ?_⟩
        · rw [hd, List.append_assoc]
          rfl
        · rintro ⟨_, _, hok, hrest⟩ id hid
          cases hx.symm.trans hok
          rcases hall hrest id hid with hid | hid
          · rw [hasNode_eq, he.node?, ha.node?] at hid
            split at hid
            · next hpin => exact Or.inr (hpin ▸ List.mem_cons_self)
            · exact Or.inl (by rwa [hasNode_eq])
          · exact Or.inr (List.mem_cons_of_mem _ hid)
      · next err s' hx =>
        have hnone := sprouts_of_strews hc (hadd.of_error hx) d.id
        obtain ⟨bs, hd, hbs, _⟩ := ih hnone.consistent d
        refine ⟨bs, hd, hnone.trans hbs, ?_⟩
        rintro ⟨_, _, hok, _⟩
        cases hx.symm.trans hok

/-- With ids enough for all variables no input is refused. -/
theorem buildServed_of_room {id : Id} (hc : s.graph.Consistent) (hid : s.graph.hasNode id)
    {vars : List (String × BindingType)}
    (hroom : s.graph.nextId.toNat + 2 * vars.length ≤ lastId.toNat) : BuildServed id s vars := by
  induction vars generalizing s with
  | nil => trivial
  | cons var vars ih =>
      obtain ⟨name, type⟩ := var
      rw [List.length_cons] at hroom
      obtain ⟨pin, t, hx⟩ := Scene.addInput_of_room hc hid (by omega) (.ofKind type.kind)
      obtain ⟨g₁, edge, g₂, ha, he, _, rfl⟩ := Scene.addsInput hc hx
      have hid' : g₂.hasNode id := by
        rw [hasNode_eq, he.node?, ← hasNode_eq]
        exact (ha.hasNode id).2 (Or.inr hid)
      have hroom' : g₂.nextId.toNat + 2 * vars.length ≤ lastId.toNat := by
        rw [he.toNat_nextId, ha.toNat_nextId]
        omega
      exact buildServed_cons.2 ⟨pin, _, hx, ih he.consistent hid' hroom'⟩

/-- With ids enough for the variables of the shader no input is refused, whatever inputs the draw
node has had before: dropping them asks for no id. -/
theorem syncServed_of_room (hc : s.graph.Consistent) (hnodup : (d.id :: d.params).Nodup)
    (hlive : ∀ p ∈ d.id :: d.params, s.graph.hasNode p) {shader : Int32}
    (hroom : s.graph.nextId.toNat + 2 * (reflected s shader).length ≤ lastId.toNat) :
    d.SyncServed s shader := by
  obtain ⟨hid, hparams⟩ := List.nodup_cons.1 hnodup
  obtain ⟨hlive, hpins⟩ := List.forall_mem_cons.1 hlive
  have hdown := trims_teardown hc hparams hpins
  exact fun _ => buildServed_of_room hdown.consistent ((hdown.hasNode_eq hid).trans hlive)
    (hdown.nextId ▸ hroom)

/-- Without inputs for a shader there are none to take away first. -/
theorem teardown_of_bare (h : d.bindings = []) (s : Scene) : d.teardown s = (d, s) := by
  simp only [teardown, h, List.map_nil]
  rw [← h]
  rfl

theorem sync_eq_build (h : d.bindings = []) (s : Scene) (shader : Int32) :
    d.sync s shader = { d with bound := shader }.build s (reflected s shader) := by
  unfold sync
  dsimp only
  split
  · next hvars => rw [hvars, h, List.map_nil, build]
  · rw [teardown_of_bare (d := { d with bound := shader }) h]

theorem SyncServed.build (h : d.bindings = []) {shader : Int32} (hserved : d.SyncServed s shader) :
    BuildServed d.id s (reflected s shader) := by
  by_cases hvars : reflected s shader = []
  · rw [hvars]
    trivial
  · have hbuilt := hserved (by rwa [h])
    rwa [teardown_of_bare h] at hbuilt

theorem onEvent_sprouts (hc : s.graph.Consistent) (h : d.bindings = []) (target : Id) :
    ∃ shader bs, (d.onEvent s (.linkCreated d.shader target)).1 =
        { d with bindings := bs, bound := shader } ∧
      Sprouts d.id (bs.map (·.pin)) (s.write d.shader (.int shader)).graph
        (d.onEvent s (.linkCreated d.shader target)).2.graph ∧
        (d.EventServed s (.linkCreated d.shader target) →
          ∀ id, (d.onEvent s (.linkCreated d.shader target)).2.graph.hasNode id →
            s.graph.hasNode id ∨ id ∈ bs.map (·.pin)) := by
  have hsync : d.onEvent s (.linkCreated d.shader target) =
      d.sync (s.write d.shader (.int (((s.values.get? target).bind Value.index?).getD noIndex)))
        (((s.values.get? target).bind Value.index?).getD noIndex) := if_pos rfl
  rw [hsync, EventServed]
  generalize ((s.values.get? target).bind Value.index?).getD noIndex = shader
  obtain ⟨bs, hd, hbs, hall⟩ := build_sprouts (Scene.consistent_write hc d.shader (.int shader))
    { d with bound := shader } (reflected (s.write d.shader (.int shader)) shader)
  rw [← sync_eq_build h] at hd hbs hall
  refine ⟨shader, bs, ?_, hbs, fun hserved id hid => ?_⟩
  · rw [hd, h, List.nil_append]
  · refine (hall ((hserved rfl).build h) id hid).imp_left fun hid => ?_
    rwa [Scene.hasNode_write] at hid

end Draw

end DrawGraph
