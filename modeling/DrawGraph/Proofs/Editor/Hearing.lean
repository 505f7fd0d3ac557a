import DrawGraph.Proofs.Editor.Reflection

/-!
# Who hears of a link

An event about a link is for the draw node whose shader pin the link leaves, and there is at most one
of them. All other observers let it pass. So the delivery of the event is what that draw node does,
or nothing.
-/

namespace DrawGraph

/-- The pin that a link leaves. -/
def Event.pin? : Event → Option Id
  | .linkCreated source _ => some source
  | .linkDeleted source _ => some source
  | .shaderUpdated _ => none

theorem UiNode.onEvent_of_ne {n : UiNode} {event : Event} {pin : Id} (hpin : event.pin? = some pin)
    (h : ∀ d, n = .draw d → d.shader ≠ pin) (s : Scene) : n.onEvent event s = (n, s) := by
  cases n with
  | draw d =>
      have hne : pin ≠ d.shader := (h d rfl).symm
      cases event with
      | linkCreated | linkDeleted =>
          cases hpin
          simp only [onEvent, Draw.onEvent, if_neg hne]
      | shaderUpdated => cases hpin
  | renderTarget =>
      cases event with
      | linkCreated | linkDeleted => rfl
      | shaderUpdated => cases hpin
  | binary | sine | time | constant | asset | primitive | camera | transform => rfl

namespace Editor

variable {w : Wiring} {e : Editor} {event : Event} {pin : Id} {n : UiNode} {d : Draw}

/-- A link to another pin is nothing to an observer. -/
theorem notify_of_ne (hnodup : (e.nodes.map UiNode.id).Nodup) (hpin : event.pin? = some pin)
    {id : Id} (h : ∀ d, .draw d ∈ e.nodes → d.shader = pin → d.id ≠ id) :
    notify event e id = e := by
  unfold notify
  split
  · next n hn =>
    obtain ⟨hmem, rfl⟩ := node?_eq_some hn
    refine act_eq_self (fun m hm hid => List.inj_on_of_nodup_map hnodup hm hmem hid) ?_
    apply UiNode.onEvent_of_ne hpin
    rintro d rfl hshader
    exact h d hmem hshader rfl
  · rfl

theorem foldl_notify_of_ne {ids : List Id} (hnodup : (e.nodes.map UiNode.id).Nodup)
    (hpin : event.pin? = some pin)
    (h : ∀ d, .draw d ∈ e.nodes → d.shader = pin → d.id ∉ ids) :
    ids.foldl (notify event) e = e := by
  induction ids with
  | nil => rfl
  | cons id ids ih =>
      rw [List.foldl_cons, notify_of_ne hnodup hpin fun d hd hshader heq =>
        h d hd hshader (heq ▸ List.mem_cons_self)]
      exact ih fun d hd hshader hid => h d hd hshader (List.mem_cons_of_mem _ hid)

theorem deliver_of_ne (hnodup : (e.nodes.map UiNode.id).Nodup) (hpin : event.pin? = some pin)
    (h : ∀ d, .draw d ∈ e.nodes → d.shader ≠ pin) : e.deliver event = e :=
  foldl_notify_of_ne hnodup hpin fun d hd hshader _ => h d hd hshader

theorem ids_act_onEvent (n : UiNode) (event : Event) :
    (e.act n (·.onEvent event)).nodes.map UiNode.id = e.nodes.map UiNode.id := by
  have hid := n.id_onEvent event e.scene
  change (e.nodes.map fun m => if m.id = (n.onEvent event e.scene).1.id then
    (n.onEvent event e.scene).1 else m).map UiNode.id = _
  rw [List.map_map]
  apply List.map_congr_left
  intro m _
  dsimp only [Function.comp_apply]
  split
  · next hm => exact hm.symm
  · rfl

/-- Every draw node listens, and no two have their shader in one pin. -/
structure Attentive (e : Editor) : Prop where
  nodup : (e.nodes.map UiNode.id).Nodup
  bus : e.bus.Nodup
  listens : ∀ d, .draw d ∈ e.nodes → d.id ∈ e.bus
  apart : ∀ d d', .draw d ∈ e.nodes → .draw d' ∈ e.nodes → d'.shader = d.shader → d'.id = d.id

theorem Sound.attentive (hs : e.Sound w) : e.Attentive where
  nodup := hs.casts.nodup
  bus := by
    rw [hs.bus]
    exact hs.casts.nodup.sublist (List.filter_sublist.map _)
  listens d hd := by
    rw [hs.bus]
    exact List.mem_map.2 ⟨.draw d, List.mem_filter.2 ⟨hd, rfl⟩, rfl⟩
  apart d d' hd hd' hshader := by
    have hrole := Wiring.Seats.input (hs.casts.plays _ hd) (d.shader, .int) List.mem_cons_self
    have hrole' := Wiring.Seats.input (hs.casts.plays _ hd') (d'.shader, .int) List.mem_cons_self
    rw [hshader] at hrole'
    exact (Role.input.inj (Option.some.inj (hrole'.symm.trans hrole))).1

namespace Attentive

theorem eq_of_id (h : e.Attentive) {m : UiNode} (hm : m ∈ e.nodes) (hn : n ∈ e.nodes)
    (hid : m.id = n.id) : m = n := List.inj_on_of_nodup_map h.nodup hm hn hid

theorem eq_of_shader (h : e.Attentive) {d' : Draw} (hd : .draw d ∈ e.nodes)
    (hd' : .draw d' ∈ e.nodes) (hshader : d'.shader = d.shader) : d' = d :=
  UiNode.draw.inj (h.eq_of_id hd' hd (h.apart d d' hd hd' hshader))

theorem bus_eq (h : e.Attentive) (hd : .draw d ∈ e.nodes) :
    ∃ pre post, e.bus = pre ++ d.id :: post ∧ d.id ∉ pre ∧ d.id ∉ post := by
  have hbus := h.bus
  obtain ⟨pre, post, hsplit⟩ := List.append_of_mem (h.listens d hd)
  rw [hsplit] at hbus
  obtain ⟨_, hpost, hdisjoint⟩ := List.nodup_append.1 hbus
  exact ⟨pre, post, hsplit, fun h => hdisjoint _ h _ List.mem_cons_self rfl,
    (List.nodup_cons.1 hpost).1⟩

theorem notify_eq (h : e.Attentive) (hd : .draw d ∈ e.nodes) :
    notify event e d.id = e.act (.draw d) (·.onEvent event) := by
  rw [notify, node?, ← show (UiNode.draw d).id = d.id from rfl, UiNode.find?_id h.nodup hd]

/-- After it acted it is still the only one with its shader pin. -/
theorem id_eq_of_act (h : e.Attentive) (hd : .draw d ∈ e.nodes) {d' : Draw}
    (hd' : .draw d' ∈ (e.act (.draw d) (·.onEvent event)).nodes) (hshader : d'.shader = d.shader) :
    d'.id = d.id := by
  rcases mem_act hd' with heq | ⟨hd', _⟩
  · exact (congrArg UiNode.id heq).trans (UiNode.id_onEvent (.draw d) _ _)
  · exact h.apart d d' hd hd' hshader

/-- Just the draw node that the link is for acts on it. -/
theorem deliver_eq (h : e.Attentive) (hpin : event.pin? = some d.shader)
    (hd : .draw d ∈ e.nodes) : e.deliver event = e.act (.draw d) (·.onEvent event) := by
  obtain ⟨pre, post, hsplit, hpre, hpost⟩ := h.bus_eq hd
  have hids := ids_act_onEvent (e := e) (.draw d) event
  rw [deliver, hsplit, List.foldl_append, foldl_notify_of_ne h.nodup hpin fun d' hd' hshader hid =>
    hpre (h.apart d d' hd hd' hshader ▸ hid), List.foldl_cons, h.notify_eq hd]
  exact foldl_notify_of_ne (hids ▸ h.nodup) hpin fun d' hd' hshader hid =>
    hpost (h.id_eq_of_act hd hd' hshader ▸ hid)

end Attentive

end Editor

end DrawGraph
