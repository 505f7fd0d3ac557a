import DrawGraph.Proofs.Editor.Linking
import DrawGraph.Proofs.UiNode.Budding

/-!
# What a link sets off

A link that is made leaves one event. When the link is to the shader of a draw node, that node makes
its inputs, for which there have to be ids; to everybody else the event is nothing.
-/

namespace DrawGraph

open Scene DrawGraph.Graph

/-- A link to another pin asks for no id. -/
theorem Draw.eventServed_of_ne {d : Draw} {event : Event} {pin : Id}
    (hpin : event.pin? = some pin) (hne : d.shader ≠ pin) (s : Scene) : d.EventServed s event := by
  cases event with
  | linkCreated source target =>
      obtain rfl : source = pin := Option.some.inj hpin
      exact fun heq => absurd heq.symm hne
  | linkDeleted => trivial
  | shaderUpdated => cases hpin

namespace Editor

variable {w : Wiring} {e : Editor} {event : Event} {pin input output edge : Id} {d : Draw}
  {g : Graph}

theorem notifyServed_of_ne (hpin : event.pin? = some pin) {id : Id}
    (h : ∀ d, .draw d ∈ e.nodes → d.shader = pin → d.id ≠ id) : NotifyServed event e id := by
  rintro n hn d rfl
  obtain ⟨hmem, hid⟩ := node?_eq_some hn
  exact Draw.eventServed_of_ne hpin (fun hshader => h d hmem hshader hid) _

theorem along_notify_of_ne {ids : List Id} (hnodup : (e.nodes.map UiNode.id).Nodup)
    (hpin : event.pin? = some pin) (h : ∀ d, .draw d ∈ e.nodes → d.shader = pin → d.id ∉ ids) :
    Along (NotifyServed event) (notify event) ids e := by
  induction ids with
  | nil => trivial
  | cons id ids ih =>
      have hid (d : Draw) (hd : .draw d ∈ e.nodes) (hshader : d.shader = pin) : d.id ≠ id :=
        fun heq => h d hd hshader (heq ▸ List.mem_cons_self)
      refine ⟨notifyServed_of_ne hpin hid, ?_⟩
      rw [notify_of_ne hnodup hpin hid]
      exact ih fun d hd hshader hmem => h d hd hshader (List.mem_cons_of_mem _ hmem)

theorem Along.append {α : Type} {p : Editor → α → Prop} {f : Editor → α → Editor} {as bs : List α}
    (h : Along p f as e) (h' : Along p f bs (as.foldl f e)) : Along p f (as ++ bs) e := by
  induction as generalizing e with
  | nil => exact h'
  | cons a as ih => exact ⟨h.1, ih h.2 h'⟩

/-- Only the draw node that the link is for asks for ids. -/
theorem Attentive.along_notify (h : e.Attentive) (hpin : event.pin? = some d.shader)
    (hd : .draw d ∈ e.nodes) (hserved : d.EventServed e.scene event) :
    Along (NotifyServed event) (notify event) e.bus e := by
  obtain ⟨pre, post, hsplit, hpre, hpost⟩ := h.bus_eq hd
  have hfirst (d' : Draw) (hd' : .draw d' ∈ e.nodes) (hshader : d'.shader = d.shader) :
      d'.id ∉ pre := fun hid => hpre (h.apart d d' hd hd' hshader ▸ hid)
  have hfind : e.node? d.id = some (.draw d) := UiNode.find?_id h.nodup hd
  rw [hsplit]
  refine (along_notify_of_ne h.nodup hpin hfirst).append ?_
  rw [foldl_notify_of_ne h.nodup hpin hfirst]
  refine ⟨fun n hn d' hd' => ?_, ?_⟩
  · rw [hfind, Option.some.injEq] at hn
    obtain rfl := UiNode.draw.inj (hn.trans hd')
    exact hserved
  · rw [h.notify_eq hd]
    exact along_notify_of_ne (ids_act_onEvent (e := e) (.draw d) event ▸ h.nodup) hpin
      fun d' hd' hshader hid => hpost (h.id_eq_of_act hd hd' hshader ▸ hid)

theorem drainServed_event {limit : Nat} (houtbox : e.graph.outbox = [event])
    (hserved : Along (NotifyServed event) (notify event) e.bus
      (e.withGraph { e.graph with outbox := [] }))
    (hquiet : ((e.withGraph { e.graph with outbox := [] }).deliver event).graph.outbox = []) :
    DrainServed (limit + 2) e := by
  rintro event' g h
  rw [takeEvent_of_outbox houtbox, Option.some.injEq, Prod.mk.injEq] at h
  obtain ⟨rfl, rfl⟩ := h
  refine ⟨hserved, fun event' g h => ?_⟩
  unfold takeEvent at h
  rw [hquiet] at h
  cases h

/-! ## Links that are made -/

theorem outbox_of_addsEdge (hidle : e.graph.outbox = [])
    (hadds : e.graph.AddsEdge ⟨edge, input, output, .external⟩ g) :
    g.outbox = [.linkCreated input output] := by
  rw [hadds.outbox, hidle]
  rfl

/-- Nobody minds a link to a pin that is no shader pin. -/
theorem drain_link_of_ne (hnodup : (e.nodes.map UiNode.id).Nodup) (hidle : e.graph.outbox = [])
    (hadds : e.graph.AddsEdge ⟨edge, input, output, .external⟩ g)
    (hne : ∀ d, .draw d ∈ e.nodes → d.shader ≠ input) :
    (e.withGraph g).drain = e.withGraph { g with outbox := [] } ∧
      DrainServed drainLimit (e.withGraph g) := by
  have houtbox : (e.withGraph g).graph.outbox = [.linkCreated input output] :=
    outbox_of_addsEdge hidle hadds
  have hdeliver : (e.withGraph { g with outbox := [] }).deliver (.linkCreated input output) =
      e.withGraph { g with outbox := [] } := deliver_of_ne hnodup rfl hne
  have hquiet := congrArg (·.graph.outbox) hdeliver
  refine ⟨(drainUpTo_event houtbox hquiet).trans hdeliver, drainServed_event houtbox ?_ hquiet⟩
  exact along_notify_of_ne hnodup rfl fun d hd hshader => absurd hshader (hne d hd)

/-- A draw node without inputs for a shader makes them for the one that it is linked to. -/
theorem drain_link_shader (hs : e.Sound w) (htidy : e.scene.Tidy) (hidle : e.graph.outbox = [])
    (hd : .draw d ∈ e.nodes) (hbare : d.bindings = [])
    (hadds : e.graph.AddsEdge ⟨edge, d.shader, output, .external⟩ g)
    (hserved : d.EventServed { e.scene with graph := { g with outbox := [] } }
      (.linkCreated d.shader output)) :
    ∃ index bs x, index = ((e.values.get? output).bind Value.index?).getD noIndex ∧
      d.Buds index bs { e.scene with graph := { g with outbox := [] } } x ∧
        (e.withGraph g).drain = ({ e with scene := x } : Editor).replace
          (.draw { d with bindings := bs, bound := index }) ∧
          DrainServed drainLimit (e.withGraph g) := by
  have houtbox : (e.withGraph g).graph.outbox = [.linkCreated d.shader output] :=
    outbox_of_addsEdge hidle hadds
  have hattentive : (e.withGraph { g with outbox := [] }).Attentive :=
    ⟨hs.attentive.nodup, hs.attentive.bus, hs.attentive.listens, hs.attentive.apart⟩
  have hdeliver : (e.withGraph { g with outbox := [] }).deliver (.linkCreated d.shader output) =
      _ := hattentive.deliver_eq rfl hd
  have hlt (p : Id) (hp : p < e.graph.nextId) : p < g.nextId :=
    UInt32.lt_of_lt_of_le hp hadds.nextId_le
  obtain ⟨index, bs, x, hindex, hevent, hbuds⟩ := Draw.onEvent_buds
    (s := { e.scene with graph := { g with outbox := [] } }) (hadds.consistent.withOutbox [])
    (fun p hp => hlt p (htidy.boxes_lt p hp))
    (hlt _ (hs.wired.consistent.node_lt _ (hs.wired.hasNode
      ((hs.casts.plays _ hd).input List.mem_cons_self).choose_spec.2))) hbare output hserved
  have hact : (e.withGraph { g with outbox := [] }).act (.draw d)
      (·.onEvent (.linkCreated d.shader output)) =
        ({ e with scene := x } : Editor).replace
          (.draw { d with bindings := bs, bound := index }) :=
    congrArg (fun r : Draw × Scene => ({ e with scene := r.2 } : Editor).replace (.draw r.1)) hevent
  have hquiet : x.graph.outbox = [] := hbuds.sprouts.outbox.trans (outbox_write ..)
  have hquiet' := (congrArg (·.graph.outbox) (hdeliver.trans hact)).trans hquiet
  exact ⟨index, bs, x, hindex, hbuds,
    (drainUpTo_event houtbox hquiet').trans (hdeliver.trans hact),
    drainServed_event houtbox (hattentive.along_notify rfl hd hserved) hquiet'⟩

end Editor

end DrawGraph
