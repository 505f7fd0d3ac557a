import DrawGraph.Proofs.Editor.Reflection

/-!
# What an update leaves in the shader pins

The only events that arise during an update tell of links whose inputs are gone, and nobody reacts
to these. So a draw node keeps in the box of its shader pin what it took over in its own turn, and
it is what the linked output still gives at the end of the update, unless that output is computed.
-/

namespace DrawGraph

open Wiring

namespace UiNode

open Scene

variable {w : Wiring} {n : UiNode} {d : Draw} {s : Scene} {clock : Clock} {o : Id}

/-- An update leaves the boxes of outputs that are not computed. -/
theorem box_onUpdate (hs : s.Tidy) (hw : Wired w s.graph s.values) (hn : n.Plays w)
    {owner : Id} {offer : Offer} (ho : w o = some (.output owner offer)) (hres : o ∉ n.results) :
    (n.onUpdate clock s).2.values.get? o = s.values.get? o := by
  by_cases htime : ∃ id output, n = time id output
  · obtain ⟨id, output, rfl⟩ := htime
    have hne : o ≠ output := by
      rintro rfl
      exact hres (List.mem_singleton.2 rfl)
    exact (get?_write ..).trans (if_neg hne)
  · have hlt {p : Id} {r : Role} (hp : w p = some r) : p < s.graph.nextId :=
      hw.consistent.node_lt p (hw.hasNode hp)
    have hmoves := n.moves_onUpdate_inputs clock s fun id output h => htime ⟨id, output, h⟩
    refine (hmoves.spares hs.ordered.consistent (hlt ho) ?_ ?_).box
    · rintro rfl
      rw [hn.identity] at ho
      cases ho
    · intro hin
      obtain ⟨kind, _, hrole⟩ := hn.input hin
      rw [ho] at hrole
      cases hrole

/-- No link leads to an input. -/
theorem Plays.unfed (hn : n.Plays w) (hw : Wired w s.graph s.values) : Unfed (· ∈ n.inputs) s := by
  intro i e he hext hmem
  obtain ⟨kind, _, htarget⟩ := hn.input hmem
  obtain ⟨owner, kind', hsource, hnext⟩ := hw.neighbors_of_external he hext
  rcases hw.aims _ _ hsource with hnil | ⟨o, p, offer, ho, hrole, _⟩
  · rw [hnext] at hnil
    cases hnil
  · rw [hnext] at ho
    cases ho
    rw [htarget] at hrole
    cases hrole

/-- All new events of an update tell of links whose inputs are gone. -/
theorem told_onUpdate (clock : Clock) (hc : s.graph.Consistent)
    (hunfed : Unfed (· ∈ n.inputs) s) :
    (∀ p, s.Gone p → (n.onUpdate clock s).2.Gone p) ∧
      ∀ event ∈ (n.onUpdate clock s).2.graph.outbox,
        event ∈ s.graph.outbox ∨ (n.onUpdate clock s).2.TellsOfGone event := by
  by_cases htime : ∃ id output, n = time id output
  · obtain ⟨id, output, rfl⟩ := htime
    have hmove : Move (fun _ => False) (· = output) s (s.write output (.float clock.elapsed)) :=
      .write _ rfl
    refine ⟨fun p hp => hmove.gone hc hp, fun event hevent => Or.inl ?_⟩
    rwa [← outbox_write s output (.float clock.elapsed)]
  · have hmoves := n.moves_onUpdate_inputs clock s fun id output h => htime ⟨id, output, h⟩
    obtain ⟨hgone, _, houtbox⟩ := hmoves.outbox hc hunfed
    exact ⟨hgone, houtbox⟩

@[simp] theorem results_onUpdate (n : UiNode) (clock : Clock) (s : Scene) :
    (n.onUpdate clock s).1.results = n.results := by
  cases n with
  | draw d =>
      unfold onUpdate
      dsimp only
      split
      · rfl
      · split
        · rfl
        · obtain ⟨bs, hd, _⟩ := d.sync_eq ((draw d).inputs.foldl pull s)
            (((draw d).inputs.foldl pull s).indexIn d.shader)
          rw [hd]
          rfl
  | _ => rfl

/-- Nobody reacts to the end of a link whose input is gone. -/
theorem onEvent_of_gone {event : Event} (h : s.TellsOfGone event)
    (hlive : ∀ p ∈ n.inputs, s.graph.hasNode p) : n.onEvent event s = (n, s) := by
  obtain ⟨p, q, rfl, hgone, _⟩ := h
  cases n with
  | draw d =>
      have hne : p ≠ d.shader := by
        rintro rfl
        rw [hlive d.shader List.mem_cons_self] at hgone
        cases hgone
      unfold onEvent Draw.onEvent
      simp only [hne, if_false]
  | _ => rfl

end UiNode

/-! ## Taking over the linked index -/

namespace Draw

variable {w : Wiring} {d : Draw} {s s' : Scene} {o : Id}

/-- What the output gives, as an index, is in the box of the shader pin that is linked to it. -/
def Took (d : Draw) (s : Scene) (o : Id) : Prop :=
  s.graph.neighbors d.shader = [o] →
    s.values.get? d.shader = (s.values.get? o).bind (·.coerce .int)

/-- After its shader pin has taken over the linked value, a draw node touches its other inputs. -/
theorem moves_onUpdate (d : Draw) (clock : Clock) (s : Scene) :
    Scene.Moves (· = d.id) (· ∈ (UiNode.draw d).inputs.tail) (s.pull d.shader)
      ((UiNode.draw d).onUpdate clock s).2 := by
  have hpulled : Scene.Moves (· = d.id) (· ∈ (UiNode.draw d).inputs.tail) (s.pull d.shader)
      ((UiNode.draw d).inputs.foldl Scene.pull s) :=
    Scene.moves_foldl_pull _ fun p hp => hp
  unfold UiNode.onUpdate
  dsimp only
  split
  · exact hpulled
  · split
    · exact hpulled
    · refine hpulled.trans (d.moves_sync _ _ fun b hb => ?_)
      exact List.mem_cons_of_mem _ (List.mem_map.2 ⟨b, hb, rfl⟩)

theorem shader_onUpdate {clock : Clock} {d' : Draw}
    (h : ((UiNode.draw d).onUpdate clock s).1 = .draw d') : d'.shader = d.shader := by
  revert h
  unfold UiNode.onUpdate
  dsimp only
  split
  · rintro ⟨⟩
    rfl
  · split
    · rintro ⟨⟩
      rfl
    · rintro ⟨⟩
      obtain ⟨bs, hd, _⟩ := d.sync_eq ((UiNode.draw d).inputs.foldl Scene.pull s)
        (((UiNode.draw d).inputs.foldl Scene.pull s).indexIn d.shader)
      rw [hd]

/-- A shader pin leads to one output at most. -/
theorem link_of_mem (hw : Wired w s.graph s.values) (hd : (UiNode.draw d).Plays w)
    (hmem : o ∈ s.graph.neighbors d.shader) : s.graph.neighbors d.shader = [o] := by
  have haims := hw.aims _ _ (Seats.input hd (d.shader, .int) List.mem_cons_self)
  rcases haims with hnil | ⟨o', _, _, h, _⟩
  · rw [hnil] at hmem
    cases hmem
  · rw [h] at hmem ⊢
    rw [List.mem_singleton.1 hmem]

/-- The value of the output that is linked to a shader pin becomes an index. -/
theorem index_of_link (hw : Wired w s.graph s.values) (hd : (UiNode.draw d).Plays w)
    (hlink : s.graph.neighbors d.shader = [o]) : ∃ v n owner offer, s.values.get? o = some v ∧
      v.coerce .int = some (.int n) ∧ w o = some (.output owner offer) := by
  have hrole := Seats.input hd (d.shader, .int) List.mem_cons_self
  rcases hw.aims _ _ hrole with hnil | ⟨o', p, offer, ho, hout, _, k, hk, hfeeds⟩
  · rw [hlink] at hnil
    cases hnil
  · rw [hlink] at ho
    cases ho
    obtain ⟨v, hv, hadmits⟩ := hw.output_box hout
    have hfeed : v.kind.canFeed .int := by
      cases offer with
      | exactly kind =>
          rw [show v.kind = kind from hadmits, ← show k = kind from hk]
          exact hfeeds
      | number => rcases hadmits with h | h <;> rw [h] <;> rfl
    obtain ⟨u, hu⟩ := Value.coerce_eq_some hfeed
    have hkind := Value.kind_of_coerce hu
    cases u with
    | int n => exact ⟨v, n, p, offer, hv, hu, hout⟩
    | _ => cases hkind

/-- The shader pin is pulled first, and then left alone. -/
theorem spares_shader (hw : Wired w s.graph s.values)
    (hd : (UiNode.draw d).Plays w) (hmoves : Scene.Moves (· = d.id)
      (· ∈ (UiNode.draw d).inputs.tail) (s.pull d.shader) s') :
    Scene.Spares d.shader (s.pull d.shader) s' := by
  have hshader := Seats.input hd (d.shader, .int) List.mem_cons_self
  have hlt : d.shader < (s.pull d.shader).graph.nextId := by
    rw [Scene.nextId_pull]
    exact hw.consistent.node_lt _ (hw.hasNode hshader)
  have hpull : Scene.Moves (fun _ => False) (· = d.shader) s (s.pull d.shader) :=
    Scene.moves_pull s rfl
  have hnodup := hd.nodup hw.coherent
  simp only [UiNode.id, UiNode.pins, UiNode.inputs, List.cons_append, List.nodup_cons,
    List.mem_cons, List.mem_append, not_or] at hnodup
  exact hmoves.spares (hpull.consistent hw.consistent).1 hlt (Ne.symm hnodup.1.1)
    (List.mem_cons.not.2 (not_or.2 ⟨hnodup.2.1.1, hnodup.2.1.2.1⟩))

theorem box_pull_shader (hw : Wired w s.graph s.values) (hd : (UiNode.draw d).Plays w) {v : Value}
    {n : Int32} (hlink : s.graph.neighbors d.shader = [o]) (hv : s.values.get? o = some v)
    (hn : v.coerce .int = some (.int n)) :
    (s.pull d.shader).values.get? d.shader = some (.int n) := by
  obtain ⟨old, hold, hkind⟩ := hw.input_box (Seats.input hd (d.shader, .int) List.mem_cons_self)
  exact Scene.box_pull hw.consistent hlink hv hold (hkind ▸ hn)

/-- A draw node takes over what is linked to it. -/
theorem took_onUpdate (hs : s.Tidy) (hw : Wired w s.graph s.values) (hd : (UiNode.draw d).Plays w)
    {clock : Clock} {d' : Draw} (h : ((UiNode.draw d).onUpdate clock s).1 = .draw d')
    (hres : o ≠ d.output) : d'.Took ((UiNode.draw d).onUpdate clock s).2 o := by
  have hspares := spares_shader hw hd (d.moves_onUpdate clock s)
  intro hlink
  rw [shader_onUpdate h] at hlink ⊢
  have hbefore : s.graph.neighbors d.shader = [o] := by
    refine link_of_mem hw hd ?_
    rw [← Scene.neighbors_pull s d.shader]
    exact hspares.targets.subset (hlink ▸ List.mem_singleton.2 rfl)
  obtain ⟨v, n, owner, offer, hv, hn, hout⟩ := index_of_link hw hd hbefore
  have hkept : ((UiNode.draw d).onUpdate clock s).2.values.get? o = some v :=
    (UiNode.box_onUpdate hs hw hd hout (List.mem_singleton.not.2 hres)).trans hv
  rw [hspares.box, box_pull_shader hw hd hbefore hv hn, hkept, Option.bind_some, hn]

end Draw

namespace Editor

variable {w : Wiring} {e : Editor} {d : Draw} {n : UiNode} {ids : List Id} {o : Id}

/-- Nobody computes what the output gives. -/
def Stored (e : Editor) (o : Id) : Prop := ∀ n ∈ e.nodes, o ∉ n.results

/-- All events tell of links whose inputs are gone, and the draw nodes among `ids` have taken over
what is linked to them, unless that is computed. -/
structure SettledIn (ids : List Id) (e : Editor) : Prop where
  tidy : e.scene.Tidy
  quiet : ∀ event ∈ e.graph.outbox, e.scene.TellsOfGone event
  took : ∀ d, .draw d ∈ e.nodes → d.id ∈ ids → ∀ o, e.Stored o → d.Took e.scene o

theorem Stored.of_onUpdate (h : (e.act n (·.onUpdate e.clock)).Stored o) (hs : e.Sound w)
    (hn : n ∈ e.nodes) : e.Stored o := by
  intro k hk
  by_cases hid : k.id = n.id
  · obtain rfl := hs.casts.eq_of_id hk hn hid
    rw [← k.results_onUpdate e.clock e.scene]
    refine h _ (List.mem_map.2 ⟨k, hk, ?_⟩)
    exact if_pos (k.id_onUpdate e.clock e.scene).symm
  · refine h k (List.mem_map.2 ⟨k, hk, ?_⟩)
    exact if_neg fun h => hid (h.trans (n.id_onUpdate e.clock e.scene))

/-- What a draw node took over stays when another UI node takes its turn. -/
theorem Sound.took_act (hs : e.Sound w) (htidy : e.scene.Tidy) (hn : n ∈ e.nodes)
    (hd : .draw d ∈ e.nodes) (hne : d.id ≠ n.id) (hres : o ∉ n.results)
    (h : d.Took e.scene o) : d.Took (n.onUpdate e.clock e.scene).2 o := by
  have hspares := hs.spares_act htidy hn hd hne (UiNode.owns_input List.mem_cons_self)
    (n.moves_onUpdate e.clock e.scene)
  have hplays := hs.casts.plays _ hd
  intro hlink
  have hbefore := Draw.link_of_mem hs.wired hplays
    (hspares.targets.subset (hlink ▸ List.mem_singleton.2 rfl))
  obtain ⟨_, _, owner, offer, _, _, hout⟩ := Draw.index_of_link hs.wired hplays hbefore
  rw [hspares.box, UiNode.box_onUpdate htidy hs.wired (hs.casts.plays n hn) hout hres]
  exact h hbefore

theorem settled_onUpdate (hs : e.Sound w) (h : SettledIn ids e) (hn : n ∈ e.nodes) :
    SettledIn (n.id :: ids) (e.act n (·.onUpdate e.clock)) := by
  have hplays := hs.casts.plays n hn
  obtain ⟨hgone, houtbox⟩ := UiNode.told_onUpdate e.clock hs.wired.consistent (hplays.unfed hs.wired)
  constructor
  · exact tidy_act hs h.tidy hn (n.moves_onUpdate e.clock e.scene)
  · intro event hevent
    rcases houtbox event hevent with hold | hnew
    · obtain ⟨p, q, rfl, hp⟩ := h.quiet event hold
      exact ⟨p, q, rfl, hgone p hp⟩
    · exact hnew
  · intro d hd hmem o hstored
    have hbefore := hstored.of_onUpdate hs hn
    rcases mem_act hd with hnew | ⟨hd, hne⟩
    · obtain ⟨d₀, rfl⟩ := UiNode.eq_draw_of_onUpdate hnew.symm
      apply Draw.took_onUpdate h.tidy hs.wired hplays hnew.symm
      exact List.mem_singleton.not.1 (hbefore _ hn)
    · rw [n.id_onUpdate] at hne
      have hmem := (List.mem_cons.1 hmem).resolve_left hne
      exact hs.took_act h.tidy hn hd hne (hbefore n hn) (h.took d hd hmem o hbefore)

theorem lasting_settled (ids : List Id) :
    Lasting (fun event e => e.scene.TellsOfGone event) (SettledIn ids) := by
  constructor
  · intro e h
    refine ⟨⟨h.tidy.ordered.withOutbox _, h.tidy.boxes_lt, h.tidy.mirrors⟩, ?_, h.took⟩
    exact fun _ hevent => nomatch hevent
  · intro e event events h houtbox
    refine ⟨⟨⟨h.tidy.ordered.withOutbox _, h.tidy.boxes_lt, h.tidy.mirrors⟩, ?_, h.took⟩, ?_⟩
    · exact fun event hevent => h.quiet event (houtbox ▸ List.mem_cons_of_mem _ hevent)
    · exact h.quiet event (houtbox ▸ List.mem_cons_self)
  · exact fun _ h => ⟨h.tidy, h.quiet, h.took⟩
  · intro w e n event hs h hgone hn _
    have hlive : ∀ p ∈ n.inputs, e.scene.graph.hasNode p := by
      intro p hp
      obtain ⟨kind, _, hrole⟩ := (hs.casts.plays n hn).input hp
      exact hs.wired.hasNode hrole
    rw [act_eq_self (fun m hm hid => hs.casts.eq_of_id hm hn hid)
      (UiNode.onEvent_of_gone hgone hlive)]
    exact ⟨h, hgone⟩
  · intro w e n hs h hn _
    have hmore := settled_onUpdate hs h hn
    exact ⟨hmore.tidy, hmore.quiet, fun d hd hmem => hmore.took d hd (List.mem_cons_of_mem _ hmem)⟩

/-- After an update every draw node has taken over what is linked to it, unless that is computed. -/
theorem took_update {dt : Float32} (hs : e.Sound w) (htidy : e.scene.Tidy)
    (hidle : e.graph.outbox = []) (hserved : e.UpdateServed dt) :
    ∀ d, .draw d ∈ (e.update dt).nodes → ∀ o, (e.update dt).Stored o →
      d.Took (e.update dt).scene o := by
  have hquiet : ∀ event ∈ e.graph.outbox, e.scene.TellsOfGone event := by
    rw [hidle]
    exact fun _ h => nomatch h
  have hall := Lasting.sweep lasting_settled (fun hs h hn _ => settled_onUpdate hs h hn) hs
    ⟨htidy, hquiet, fun _ _ h => nomatch h⟩ hserved
  intro d hd
  apply hall.took d hd
  have hnodes := (lasting_ids (e.nodes.map UiNode.id)).apply_update hs rfl hserved
  rw [List.mem_reverse, ← hnodes]
  exact List.mem_map.2 ⟨_, hd, rfl⟩

end Editor

end DrawGraph
