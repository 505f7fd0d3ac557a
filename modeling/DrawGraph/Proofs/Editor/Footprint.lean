import DrawGraph.Proofs.Editor.Hearing
import DrawGraph.Proofs.Editor.Upkeep
import DrawGraph.Proofs.UiNode.Base
import DrawGraph.Proofs.UiNode.Trim

/-!
# What a removal takes away

With a UI node go its pins and its identity, and so do all links to it. A draw node that thereby
loses its shader drops the inputs for its variables, and the links to these are cut in turn. But such
a link is nobody's shader, so this is where it ends. All else is as it was.
-/

namespace DrawGraph

open Scene DrawGraph.Graph

/-- The UI node without its shader, if it is one of the draw nodes `ids`. -/
def UiNode.unbind (ids : List Id) : UiNode → UiNode
  | draw d => if d.id ∈ ids then draw d.unbound else draw d
  | n => n

namespace UiNode

variable {ids : List Id} {n : UiNode} {d : Draw}

theorem id_unbind (ids : List Id) (n : UiNode) : (n.unbind ids).id = n.id := by
  cases n with
  | draw d =>
      rw [unbind]
      split <;> rfl
  | binary | sine | time | constant | asset | primitive | camera | transform | renderTarget => rfl

theorem eq_draw_of_unbind (h : n.unbind ids = draw d) :
    ∃ d₀, n = draw d₀ ∧ d = if d₀.id ∈ ids then d₀.unbound else d₀ := by
  cases n with
  | draw d₀ =>
      refine ⟨d₀, rfl, draw.inj (h.symm.trans ?_)⟩
      rw [unbind]
      split <;> rfl
  | binary | sine | time | constant | asset | primitive | camera | transform | renderTarget =>
      cases h

theorem unbind_cons (hne : n.id ≠ d.id) : n.unbind (d.id :: ids) = n.unbind ids := by
  cases n with
  | draw d₀ =>
      have hne : d₀.id ≠ d.id := hne
      simp only [unbind, List.mem_cons, hne, false_or]
  | binary | sine | time | constant | asset | primitive | camera | transform | renderTarget => rfl

end UiNode

/-- A link leads to an output. -/
theorem Wired.output_of_external {w : Wiring} {g : Graph} {values : ValueStore}
    (h : Wired w g values) {k : Id} {f : Edge} (hf : g.edge? k = some f)
    (hx : f.kind = .external) : ∃ owner offer, w f.target = some (.output owner offer) := by
  obtain ⟨owner, kind, hi, hts⟩ := h.neighbors_of_external hf hx
  rcases h.aims _ _ hi with hnil | ⟨o, p, offer, ho, hrole, _⟩
  · rw [hts] at hnil
    cases hnil
  · rw [hts] at ho
    rw [List.singleton_inj.1 ho]
    exact ⟨p, offer, hrole⟩

theorem Scene.Trims.withOutbox {gone reset : List Id} {s s' : Scene} (h : Trims gone reset s s')
    (events : List Event) :
    Trims gone reset s { s' with graph := { s'.graph with outbox := events } } :=
  ⟨h.consistent.withOutbox events, h.node?, h.neighbors, h.edge?, h.box, h.nextId, h.services⟩

namespace Editor

variable {w : Wiring} {e x : Editor} {n : UiNode} {d d' : Draw} {lost : List Draw} {p : Id}

/-! ## Pins of draw nodes -/

namespace Sound

variable (hs : e.Sound w)

include hs

theorem role_shader (hd : .draw d ∈ e.nodes) : w d.shader = some (.input d.id .int) :=
  Wiring.Seats.input (hs.casts.plays _ hd) (d.shader, .int) List.mem_cons_self

theorem role_param (hd : .draw d ∈ e.nodes) (hp : p ∈ d.params) :
    ∃ kind, w p = some (.input d.id kind) := by
  obtain ⟨kind, _, hrole⟩ := (hs.casts.plays _ hd).input
    (List.mem_cons_of_mem _ (List.mem_cons_of_mem _ hp))
  exact ⟨kind, hrole⟩

theorem pins_apart (hd : .draw d ∈ e.nodes) : d.params.Nodup ∧ d.shader ∉ d.params := by
  have happart := Draw.pins_apart hs.wired.coherent (hs.casts.plays _ hd)
  exact ⟨happart.1, happart.2.1⟩

theorem eq_of_role (hd : .draw d ∈ e.nodes) (hd' : .draw d' ∈ e.nodes) {kind kind' : ValueKind}
    (hp : w p = some (.input d.id kind)) (hp' : w p = some (.input d'.id kind')) : d' = d := by
  have hid := (Role.input.inj (Option.some.inj (hp'.symm.trans hp))).1
  exact UiNode.draw.inj (hs.attentive.eq_of_id hd' hd hid)

/-- The shader of a draw node is no variable of a shader. -/
theorem shader_notMem_params (hd : .draw d ∈ e.nodes) (hd' : .draw d' ∈ e.nodes) :
    d.shader ∉ d'.params := by
  intro hmem
  obtain ⟨kind, hrole⟩ := hs.role_param hd' hmem
  obtain rfl := hs.eq_of_role hd hd' (hs.role_shader hd) hrole
  exact (hs.pins_apart hd).2 hmem

end Sound

/-! ## Draw nodes that lose their shaders -/

/-- The end of a link to the shader pin of a draw node. -/
theorem Attentive.deliver_linkDeleted (h : e.Attentive) (hc : e.graph.Consistent)
    (hd : .draw d ∈ e.nodes) (hnodup : d.params.Nodup)
    (hlive : ∀ p ∈ d.params, e.graph.hasNode p) (t : Id) :
    ∃ s' cut, e.deliver (.linkDeleted d.shader t) =
        ({ e with scene := s' } : Editor).replace (.draw d.unbound) ∧
      Trims d.params [d.shader] e.scene s' ∧ e.graph.Cuts cut s'.graph := by
  obtain ⟨s', cut, hevent, htrims, hcuts⟩ := Draw.onEvent_trims hc hnodup hlive t
  refine ⟨s', cut, ?_, htrims, hcuts⟩
  have hact : e.act (.draw d) (·.onEvent (.linkDeleted d.shader t)) =
      ({ e with scene := (d.onEvent e.scene (.linkDeleted d.shader t)).2 } : Editor).replace
        (.draw (d.onEvent e.scene (.linkDeleted d.shader t)).1) := rfl
  rw [h.deliver_eq rfl hd, hact, hevent]

/-- `x` is `e` after the draw nodes in `lost` lost their shaders. -/
structure Unshades (lost : List Draw) (e x : Editor) : Prop where
  scene : Trims (lost.flatMap Draw.params) (lost.map (·.shader)) e.scene x.scene
  rest : x = { e with scene := x.scene, nodes := e.nodes.map (·.unbind (lost.map (·.id))) }

/-- A delivery of links that are cut has come so far. Just the draw nodes that an event told of the
end of their links have lost their shaders, or are still to be told. -/
structure Unshading (e : Editor) (lost : List Draw) (x : Editor) : Prop
    extends Unshades lost e x where
  only : OnlyLosses x.graph.outbox
  told : ∀ d ∈ lost, .draw d ∈ e.nodes ∧ Loses d.shader e.graph.outbox
  due : ∀ d, .draw d ∈ e.nodes → Loses d.shader x.graph.outbox → Loses d.shader e.graph.outbox
  waits : ∀ d, .draw d ∈ e.nodes → Loses d.shader e.graph.outbox →
    d ∈ lost ∨ Loses d.shader x.graph.outbox

theorem Unshades.congr {lost' : List Draw} (h : Unshades lost e x)
    (hlost : ∀ d, d ∈ lost ↔ d ∈ lost') : Unshades lost' e x where
  scene := h.scene.congr (fun j => by simp [hlost]) fun j => by simp [hlost]
  rest := by
    have hids (m : UiNode) : m.unbind (lost.map (·.id)) = m.unbind (lost'.map (·.id)) := by
      cases m with
      | draw d => simp only [UiNode.unbind, List.mem_map, hlost]
      | binary | sine | time | constant | asset | primitive | camera | transform
      | renderTarget => rfl
    rw [← List.map_congr_left fun m _ => hids m]
    exact h.rest

theorem Unshading.start (hs : e.Sound w) (honly : OnlyLosses e.graph.outbox) :
    Unshading e [] e where
  scene := .refl hs.wired.consistent
  rest := by
    have hids (m : UiNode) : m.unbind [] = m := by
      cases m with
      | draw d => simp [UiNode.unbind]
      | binary | sine | time | constant | asset | primitive | camera | transform
      | renderTarget => rfl
    simp [hids]
  only := honly
  told _ hd := nomatch hd
  due _ _ h := h
  waits _ _ h := Or.inr h

namespace Unshading

variable (h : Unshading e lost x) (hs : e.Sound w)

include h hs

theorem mem_lost_iff (hd : .draw d ∈ e.nodes) : d.id ∈ lost.map (·.id) ↔ d ∈ lost := by
  refine ⟨fun hmem => ?_, fun hmem => List.mem_map_of_mem hmem⟩
  obtain ⟨d', hd', hid⟩ := List.mem_map.1 hmem
  obtain rfl := UiNode.draw.inj (hs.attentive.eq_of_id (h.told d' hd').1 hd hid)
  exact hd'

theorem attentive : x.Attentive := by
  rw [h.rest]
  have hdraw {d : Draw} (hd : .draw d ∈ e.nodes.map (·.unbind (lost.map (·.id)))) :
      ∃ d₀, .draw d₀ ∈ e.nodes ∧ d.id = d₀.id ∧ d.shader = d₀.shader := by
    obtain ⟨m, hm, heq⟩ := List.mem_map.1 hd
    obtain ⟨d₀, rfl, rfl⟩ := UiNode.eq_draw_of_unbind heq
    refine ⟨d₀, hm, ?_⟩
    split <;> exact ⟨rfl, rfl⟩
  refine ⟨?_, hs.attentive.bus, fun d hd => ?_, fun d d' hd hd' hshader => ?_⟩
  · rw [List.map_map]
    exact (List.map_congr_left fun m _ => UiNode.id_unbind _ m).symm ▸ hs.attentive.nodup
  · obtain ⟨d₀, hd₀, hid, _⟩ := hdraw hd
    rw [hid]
    exact hs.attentive.listens d₀ hd₀
  · obtain ⟨d₀, hd₀, hid, hshader₀⟩ := hdraw hd
    obtain ⟨d₁, hd₁, hid', hshader₁⟩ := hdraw hd'
    rw [hid, hid']
    exact hs.attentive.apart d₀ d₁ hd₀ hd₁ (hshader₁.symm.trans (hshader.trans hshader₀))

/-- A pin that was dropped is a variable's. -/
theorem notMem_gone (hd : .draw d ∈ e.nodes) (hnew : d ∉ lost) {kind : ValueKind}
    (hp : w p = some (.input d.id kind)) : p ∉ lost.flatMap Draw.params := by
  intro hmem
  obtain ⟨d', hd', hp'⟩ := List.mem_flatMap.1 hmem
  obtain ⟨kind', hrole⟩ := hs.role_param (h.told d' hd').1 hp'
  exact hnew (hs.eq_of_role hd (h.told d' hd').1 hp hrole ▸ hd')

theorem shader_notMem_gone (hd : .draw d ∈ e.nodes) : d.shader ∉ lost.flatMap Draw.params := by
  intro hmem
  obtain ⟨d', hd', hp⟩ := List.mem_flatMap.1 hmem
  exact hs.shader_notMem_params hd (h.told d' hd').1 hp

/-- An event that is for nobody. -/
theorem pass {pin t : Id} {events : List Event}
    (houtbox : x.graph.outbox = .linkDeleted pin t :: events)
    (hnone : ∀ d, .draw d ∈ e.nodes → d.shader ≠ pin) :
    Unshading e lost
      ((x.withGraph { x.graph with outbox := events }).deliver (.linkDeleted pin t)) := by
  have hdeliver : (x.withGraph { x.graph with outbox := events }).deliver (.linkDeleted pin t) =
      x.withGraph { x.graph with outbox := events } := by
    refine deliver_of_ne (h.attentive hs).nodup rfl fun d hd => ?_
    have hd : .draw d ∈ x.nodes := hd
    rw [h.rest] at hd
    obtain ⟨m, hm, heq⟩ := List.mem_map.1 hd
    obtain ⟨d₀, rfl, rfl⟩ := UiNode.eq_draw_of_unbind heq
    split <;> exact hnone d₀ hm
  have htail {p : Id} (hp : Loses p events) : Loses p x.graph.outbox :=
    houtbox ▸ hp.append_right [_]
  rw [hdeliver]
  refine { scene := h.scene.withOutbox events, rest := ?_, only := ?_, told := h.told,
           due := fun d hd hlost => h.due d hd (htail hlost), waits := ?_ }
  · conv_lhs => rw [h.rest]
    rfl
  · exact fun event hevent => h.only event (houtbox ▸ List.mem_cons_of_mem _ hevent)
  · refine fun d hd hlost => (h.waits d hd hlost).imp_right fun ⟨t', ht'⟩ => ?_
    rw [houtbox] at ht'
    rcases List.mem_cons.1 ht' with heq | ht'
    · exact absurd (Event.linkDeleted.inj heq).1 (hnone d hd)
    · exact ⟨t', ht'⟩

/-- What has become of a draw node so far. -/
theorem present (hd : .draw d ∈ e.nodes) : ∃ d₁, .draw d₁ ∈ x.nodes ∧ d₁.shader = d.shader ∧
    d₁.unbound = d.unbound ∧ (d ∈ lost ∧ d₁.params = [] ∨ d ∉ lost ∧ d₁ = d) := by
  have hmem : UiNode.unbind (lost.map (·.id)) (.draw d) ∈ x.nodes := by
    rw [h.rest]
    exact List.mem_map_of_mem hd
  by_cases hlost : d ∈ lost
  · rw [UiNode.unbind, if_pos ((h.mem_lost_iff hs hd).2 hlost)] at hmem
    exact ⟨d.unbound, hmem, rfl, rfl, Or.inl ⟨hlost, rfl⟩⟩
  · rw [UiNode.unbind, if_neg fun hid => hlost ((h.mem_lost_iff hs hd).1 hid)] at hmem
    exact ⟨d, hmem, rfl, rfl, Or.inr ⟨hlost, rfl⟩⟩

/-- A draw node acts on the end of its link. If it did so before, it has nothing left to drop. -/
theorem acts (hd : .draw d ∈ e.nodes) (t : Id) (events : List Event) :
    ∃ params s' cut,
      (x.withGraph { x.graph with outbox := events }).deliver (.linkDeleted d.shader t) =
        ({ x with scene := s' } : Editor).replace (.draw d.unbound) ∧
      Trims params [d.shader] (x.withGraph { x.graph with outbox := events }).scene s' ∧
      ({ x.graph with outbox := events } : Graph).Cuts cut s'.graph ∧
      (d ∈ lost ∧ params = [] ∨ d ∉ lost ∧ params = d.params) := by
  have htrims := h.scene.withOutbox events
  have hx := h.attentive hs
  have hattentive : (x.withGraph { x.graph with outbox := events }).Attentive :=
    ⟨hx.nodup, hx.bus, hx.listens, hx.apart⟩
  obtain ⟨d₁, hd₁, hshader, hunbound, hcase⟩ := h.present hs hd
  have hnodup : d₁.params.Nodup := by
    rcases hcase with ⟨_, hnil⟩ | ⟨_, rfl⟩
    · exact hnil ▸ List.nodup_nil
    · exact (hs.pins_apart hd).1
  have hlive : ∀ p ∈ d₁.params,
      (x.withGraph { x.graph with outbox := events }).scene.graph.hasNode p := by
    rcases hcase with ⟨_, hnil⟩ | ⟨hnew, rfl⟩
    · rw [hnil]
      exact fun _ hp => nomatch hp
    · intro p hp
      obtain ⟨kind, hrole⟩ := hs.role_param hd hp
      exact (htrims.hasNode_eq (h.notMem_gone hs hd hnew hrole)).trans (hs.wired.hasNode hrole)
  obtain ⟨s', cut, hdeliver, htrims', hcuts⟩ :=
    hattentive.deliver_linkDeleted htrims.consistent hd₁ hnodup hlive t
  rw [hshader, hunbound] at hdeliver
  rw [hshader] at htrims'
  refine ⟨d₁.params, s', cut, hdeliver, htrims', hcuts, hcase.imp_right (And.imp_right fun heq => ?_)⟩
  rw [heq]

/-- The links that are cut with the inputs for variables left these inputs, which are no shaders. -/
theorem loses_iff_of_cuts (hd : .draw d ∈ e.nodes) (hd' : .draw d' ∈ e.nodes) {events : List Event}
    {params : List Id} {s' : Scene} {cut : List Edge} (hparams : ∀ p ∈ params, p ∈ d.params)
    (htrims : Trims params [d.shader] (x.withGraph { x.graph with outbox := events }).scene s')
    (hcuts : ({ x.graph with outbox := events } : Graph).Cuts cut s'.graph) :
    Loses d'.shader s'.graph.outbox ↔ Loses d'.shader events := by
  have hbefore := h.scene.withOutbox events
  have hqueue : s'.graph.outbox = events ++ cut.map Edge.cutEvent := hcuts.outbox
  refine ⟨fun ⟨t', ht'⟩ => ?_, fun hlost => hqueue ▸ hlost.append_left _⟩
  rw [hqueue, List.mem_append] at ht'
  refine ht'.elim (fun hold => ⟨t', hold⟩) fun hnew => ?_
  obtain ⟨f, hf, heq⟩ := List.mem_map.1 hnew
  obtain ⟨hsource, _⟩ := Event.linkDeleted.inj heq
  obtain ⟨⟨hedge, hx⟩, htouch⟩ := (htrims.mem_cut hbefore.consistent hcuts).1 hf
  rcases htouch with hmem | hmem
  · exact absurd (hparams _ (hsource ▸ hmem)) (hs.shader_notMem_params hd' hd)
  · obtain ⟨kind, hin⟩ := hs.role_param hd (hparams _ hmem)
    obtain ⟨_, _, hout⟩ := hs.wired.output_of_external (hbefore.edge?_of_some hedge) hx
    cases hin.symm.trans hout

theorem map_unbound (hd : .draw d ∈ e.nodes) :
    (x.nodes.map fun m => if m.id = d.unbound.id then .draw d.unbound else m) =
      e.nodes.map (·.unbind ((d :: lost).map (·.id))) := by
  rw [h.rest, List.map_map]
  refine List.map_congr_left fun m hm => ?_
  dsimp only [Function.comp_apply]
  rw [UiNode.id_unbind]
  split
  · next hid =>
    rw [hs.attentive.eq_of_id hm hd hid, List.map_cons, UiNode.unbind, if_pos List.mem_cons_self]
  · next hid => exact (UiNode.unbind_cons hid).symm

/-- A draw node that is told that its shader is gone. -/
theorem hear {t : Id} {events : List Event} (hd : .draw d ∈ e.nodes)
    (houtbox : x.graph.outbox = .linkDeleted d.shader t :: events) :
    Unshading e (d :: lost)
      ((x.withGraph { x.graph with outbox := events }).deliver (.linkDeleted d.shader t)) := by
  obtain ⟨params, s', cut, hdeliver, htrims, hcuts, hcase⟩ := h.acts hs hd t events
  have hbefore := h.scene.withOutbox events
  have hqueue : s'.graph.outbox = events ++ cut.map Edge.cutEvent := hcuts.outbox
  have hparams : ∀ p ∈ params, p ∈ d.params := by
    rcases hcase with ⟨_, rfl⟩ | ⟨_, rfl⟩
    · exact fun _ hp => nomatch hp
    · exact fun _ hp => hp
  have hother {d' : Draw} (hd' : .draw d' ∈ e.nodes) :
      Loses d'.shader s'.graph.outbox ↔ Loses d'.shader events :=
    h.loses_iff_of_cuts hs hd hd' hparams htrims hcuts
  have htail {p : Id} (hp : Loses p events) : Loses p x.graph.outbox :=
    houtbox ▸ hp.append_right [_]
  have hhead : Loses d.shader x.graph.outbox := ⟨t, houtbox ▸ List.mem_cons_self⟩
  rw [hdeliver]
  refine { scene := ?_, rest := ?_, only := ?_, told := ?_, due := ?_, waits := ?_ }
  · have hreset : ∀ p ∈ [d.shader], p ∉ lost.flatMap Draw.params :=
      List.forall_mem_singleton.2 (h.shader_notMem_gone hs hd)
    refine (hbefore.trans htrims hreset).congr (fun j => ?_) fun j => ?_
    · rw [List.mem_append, List.flatMap_cons, List.mem_append, or_comm]
      rcases hcase with ⟨hlost, rfl⟩ | ⟨_, rfl⟩
      · have hmem : j ∈ d.params → j ∈ lost.flatMap Draw.params := fun hj =>
          List.mem_flatMap.2 ⟨d, hlost, hj⟩
        simpa using hmem
      · rfl
    · rw [List.mem_append, List.mem_singleton, or_comm, List.map_cons, List.mem_cons]
  · rw [replace]
    dsimp only
    rw [show (UiNode.draw d.unbound).id = d.unbound.id from rfl, h.map_unbound hs hd, h.rest]
  · intro event hevent
    have hevent : event ∈ events ++ cut.map Edge.cutEvent := hqueue ▸ hevent
    rcases List.mem_append.1 hevent with hold | hnew
    · exact h.only event (houtbox ▸ List.mem_cons_of_mem _ hold)
    · obtain ⟨f, _, rfl⟩ := List.mem_map.1 hnew
      exact ⟨_, _, rfl⟩
  · exact List.forall_mem_cons.2 ⟨⟨hd, h.due d hd hhead⟩, h.told⟩
  · exact fun d' hd' hlost => h.due d' hd' (htail ((hother hd').1 hlost))
  · intro d' hd' hlost
    rcases h.waits d' hd' hlost with hdone | ⟨t', ht'⟩
    · exact Or.inl (List.mem_cons_of_mem _ hdone)
    · rw [houtbox] at ht'
      rcases List.mem_cons.1 ht' with heq | hrest
      · have hshader := (Event.linkDeleted.inj heq).1
        rw [hs.attentive.eq_of_shader hd hd' hshader]
        exact Or.inl List.mem_cons_self
      · exact Or.inr ((hother hd').2 ⟨t', hrest⟩)

end Unshading

/-- When all that waits tells of links that are cut, the draw nodes that lose their shaders are those
that are told so. -/
theorem Sound.unshades_drain (hs : e.Sound w) (honly : OnlyLosses e.graph.outbox)
    (hwhole : DrainWhole drainLimit e)
    (hlost : ∀ d, d ∈ lost ↔ .draw d ∈ e.nodes ∧ Loses d.shader e.graph.outbox) :
    Unshades lost e e.drain := by
  have hdone : ∃ told, Unshading e told e.drain := by
    refine drainWhole_delivers (P := fun x => ∃ told, Unshading e told x) ?_
      ⟨[], .start hs honly⟩ hwhole
    rintro x event events ⟨told, h⟩ houtbox
    obtain ⟨pin, t, rfl⟩ := h.only event (houtbox ▸ List.mem_cons_self)
    by_cases hdraw : ∃ d, .draw d ∈ e.nodes ∧ d.shader = pin
    · obtain ⟨d, hd, rfl⟩ := hdraw
      exact ⟨_, h.hear hs hd houtbox⟩
    · have hnone (d : Draw) (hd : .draw d ∈ e.nodes) : d.shader ≠ pin :=
        fun hshader => hdraw ⟨d, hd, hshader⟩
      exact ⟨told, h.pass hs houtbox hnone⟩
  obtain ⟨told, h⟩ := hdone
  refine h.congr fun d => ⟨fun hd => (hlost d).2 (h.told d hd), fun hd => ?_⟩
  obtain ⟨hmem, hloses⟩ := (hlost d).1 hd
  refine (h.waits d hmem hloses).resolve_right fun ⟨t, ht⟩ => ?_
  rw [outbox_drain] at ht
  cases ht

/-! ## Removing a UI node -/

/-- The other draw nodes whose shader comes from an output of a UI node. -/
def orphans (e : Editor) (n : UiNode) : List Draw :=
  e.nodes.filterMap fun
    | .draw d =>
        if d.id ≠ n.id ∧ ∃ o ∈ n.outputs, o ∈ e.graph.neighbors d.shader then some d else none
    | _ => none

theorem mem_orphans : d ∈ e.orphans n ↔ .draw d ∈ e.nodes ∧ d.id ≠ n.id ∧
    ∃ o ∈ n.outputs, o ∈ e.graph.neighbors d.shader := by
  rw [orphans, List.mem_filterMap]
  constructor
  · rintro ⟨m, hm, heq⟩
    split at heq
    · next d₀ =>
      split at heq
      · next hlinked =>
        cases heq
        exact ⟨hm, hlinked⟩
      · cases heq
    · cases heq
  · rintro ⟨hd, hlinked⟩
    exact ⟨_, hd, if_pos hlinked⟩

/-- `e'` is `e` without a UI node. Nodes and boxes go with it, and edges that touch these nodes; and
what its shader was to other draw nodes. -/
structure Removes (e : Editor) (n : UiNode) (e' : Editor) : Prop where
  scene : Trims (n.id :: n.pins ++ (e.orphans n).flatMap Draw.params)
    ((e.orphans n).map (·.shader)) e.scene e'.scene
  outbox : e'.graph.outbox = []
  nodes : e'.nodes =
    (e.nodes.filter (·.id != n.id)).map (·.unbind ((e.orphans n).map (·.id)))
  bus : e'.bus = e.bus.filter (· != n.id)
  root : e'.root = if e.root = some n.id then none else e.root
  settings : e'.settings = e.settings
  clock : e'.clock = e.clock

/-- The links that are cut with a UI node are those of its inputs and its outputs. -/
theorem Sound.loses_iff (hs : e.Sound w) (hn : n ∈ e.nodes) (hd : .draw d ∈ e.nodes)
    (hne : d.id ≠ n.id) {s : Scene} {cut : List Edge} (htrims : Trims (n.id :: n.pins) [] e.scene s)
    (hcuts : e.graph.Cuts cut s.graph) :
    Loses d.shader (cut.map Edge.cutEvent) ↔ ∃ o ∈ n.outputs, o ∈ e.graph.neighbors d.shader := by
  have hc := hs.wired.consistent
  have hplays := hs.casts.plays n hn
  constructor
  · rintro ⟨t, ht⟩
    obtain ⟨f, hf, heq⟩ := List.mem_map.1 ht
    obtain ⟨hsource, _⟩ := Event.linkDeleted.inj heq
    obtain ⟨⟨hedge, hx⟩, htouch⟩ := (htrims.mem_cut hc hcuts).1 hf
    rcases htouch with hmem | hmem
    · obtain ⟨r, hr, hhome⟩ := hplays.home_eq hmem
      rw [hsource, hs.role_shader hd] at hr
      cases hr
      exact absurd hhome hne
    · obtain ⟨owner, offer, hout⟩ := hs.wired.output_of_external hedge hx
      refine ⟨f.target, ?_, hc.mem_neighbors.2 ⟨f, mem_edgesFrom.2 ⟨⟨_, hedge⟩, hsource⟩, rfl⟩⟩
      rcases List.mem_cons.1 hmem with hid | hpin
      · rw [hid, hplays.identity] at hout
        cases hout
      · refine (List.mem_append.1 hpin).resolve_left fun hin => ?_
        obtain ⟨kind, _, hrole⟩ := hplays.input hin
        rw [hrole] at hout
        cases hout
  · rintro ⟨o, ho, hlink⟩
    obtain ⟨f, hf, rfl⟩ := hc.mem_neighbors.1 hlink
    obtain ⟨⟨i, hi⟩, hsource⟩ := mem_edgesFrom.1 hf
    have hx : f.kind = .external :=
      (hs.wired.kind i f hi).2 ⟨_, _, hsource ▸ hs.role_shader hd⟩
    have hedge : e.graph.edge? f.id = some f := by rwa [hc.own i f hi]
    have hcut := (htrims.mem_cut hc hcuts).2
      ⟨⟨hedge, hx⟩, Or.inr (List.mem_cons_of_mem _ (List.mem_append_right _ ho))⟩
    exact ⟨f.target, List.mem_map.2 ⟨f, hcut, congrArg (Event.linkDeleted · _) hsource⟩⟩

theorem Sound.bus_filter (hs : e.Sound w) (hn : n ∈ e.nodes) (s : Scene) :
    (e.dismiss n s).bus = e.bus.filter (· != n.id) := by
  rw [bus_dismiss hs.casts hs.bus hn, hs.bus, List.filter_map]
  exact congrArg _ (List.filter_comm ..)

/-- A UI node can always be removed. What goes with it is its pins and its identity, their boxes and
edges, and from each other draw node that had its shader from it the inputs for its variables. -/
theorem Reached.removes (h : Reached e) (hn : n ∈ e.nodes)
    (hwhole : (Operation.removeNode n.id).Whole e) :
    (e.removeNode n.id).1 = .ok () ∧ Removes e n (e.removeNode n.id).2 := by
  obtain ⟨w, hs⟩ := h.sound
  have hidle := h.outbox
  have hplays := hs.casts.plays n hn
  have hlive : ∀ p ∈ n.id :: n.pins, e.graph.hasNode p := by
    intro p hp
    obtain ⟨r, hr, _⟩ := hplays.home_eq hp
    exact hs.wired.hasNode hr
  obtain ⟨s, cut, hdelete, htrims, hcuts⟩ := UiNode.onDelete_trims hs.wired.consistent
    (hplays.nodup hs.wired.coherent) hlive
  obtain ⟨s', w', hdelete', hw', hrecast, hgone⟩ := UiNode.onDelete_ok hs.wired hplays
  obtain rfl : s' = s := congrArg Prod.snd (hdelete'.symm.trans hdelete)
  have hs' : (e.dismiss n s').Sound w' := hs.dismiss hn hw' hrecast hgone
  have hfind : e.node? n.id = some n := hs.casts.find?_id hn
  have hremove : e.removeNode n.id = (.ok (), (e.dismiss n s').drain) := by
    rw [removeNode, hfind]
    dsimp only
    rw [hdelete]
    rfl
  have hqueue : (e.dismiss n s').graph.outbox = cut.map Edge.cutEvent := by
    refine hcuts.outbox.trans ?_
    rw [show e.scene.graph.outbox = [] from hidle, List.nil_append]
  have honly : OnlyLosses (e.dismiss n s').graph.outbox := by
    intro event hevent
    obtain ⟨f, _, rfl⟩ := List.mem_map.1 (hqueue ▸ hevent)
    exact ⟨_, _, rfl⟩
  have hlost (d : Draw) : d ∈ e.orphans n ↔
      .draw d ∈ (e.dismiss n s').nodes ∧ Loses d.shader (e.dismiss n s').graph.outbox := by
    rw [hqueue, mem_orphans, dismiss]
    simp only [List.mem_filter, bne_iff_ne, and_assoc]
    refine and_congr_right fun hd => and_congr_right fun hne => ?_
    exact (hs.loses_iff hn hd hne htrims hcuts).symm
  have hdrain : DrainWhole drainLimit (e.dismiss n s') := by
    have hall := hwhole n hfind
    rwa [hdelete] at hall
  have hafter := hs'.unshades_drain honly hdrain hlost
  rw [hremove]
  refine ⟨rfl, ?_, outbox_drain _, ?_, ?_, ?_, ?_, ?_⟩
  · refine htrims.trans hafter.scene fun p hp hmem => ?_
    obtain ⟨d, hd, rfl⟩ := List.mem_map.1 hp
    obtain ⟨hd, hne, _⟩ := mem_orphans.1 hd
    obtain ⟨r, hr, hhome⟩ := hplays.home_eq hmem
    rw [hs.role_shader hd] at hr
    cases hr
    exact hne hhome
  · rw [hafter.rest]
    rfl
  · rw [hafter.rest]
    exact hs.bus_filter hn s'
  · rw [hafter.rest]
    rfl
  · rw [hafter.rest]
    rfl
  · rw [hafter.rest]
    rfl

/-- The lamp's only variable is fed, and the lamp is the root. -/
def rooted : Editor :=
  [.addNode .vector3, .link 14 11, .setRoot (some 0)].foldl Operation.apply lit

/-- With the lamp go the input for the variable and the link to it, but not what fed it. -/
theorem removes_rooted : Reached rooted ∧
    (rooted.orphans (.asset .shader 0 1 (some "lamp"))).map Draw.params = [[11]] ∧
    (rooted.removeNode 0).1 = .ok () ∧
    Removes rooted (.asset .shader 0 1 (some "lamp")) (rooted.removeNode 0).2 := by
  have hrooted : Reached rooted := ((tracked_lit.reached.step (.addNode .vector3)
    (by decide +kernel)).step (.link 14 11) (by decide +kernel)).step (.setRoot (some 0)) trivial
  obtain ⟨hremove, hremoves⟩ :=
    hrooted.removes (n := .asset .shader 0 1 (some "lamp")) (by decide +kernel) (by decide +kernel)
  exact ⟨hrooted, by decide +kernel, hremove, hremoves⟩

end Editor

end DrawGraph
