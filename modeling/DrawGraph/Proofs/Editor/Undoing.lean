import DrawGraph.Proofs.Editor.Footprint
import DrawGraph.Proofs.Editor.Joining

/-!
# Links that are taken back

To cut a link just after it was made is to go back to where it was not. Only the ids that it took
stay given out, and a shader pin does not get back what was set on it.
-/

namespace DrawGraph

open Scene DrawGraph.Graph

namespace Editor

variable {w : Wiring} {e : Editor} {a b input output edge k : Id} {d : Draw} {f : Edge}

/-- Some draw node has its shader in a pin. -/
def isShaderPin (e : Editor) (pin : Id) : Bool :=
  e.nodes.any fun
    | .draw d => d.shader == pin
    | _ => false

/-- The scene with no index in a pin, if it is a shader pin. -/
def unset (e : Editor) (pin : Id) : Scene :=
  if e.isShaderPin pin then e.scene.write pin (.int noIndex) else e.scene

theorem isShaderPin_iff : e.isShaderPin input ↔ ∃ d, .draw d ∈ e.nodes ∧ d.shader = input := by
  rw [isShaderPin, List.any_eq_true]
  constructor
  · rintro ⟨n, hn, hpin⟩
    split at hpin
    · exact ⟨_, hn, beq_iff_eq.1 hpin⟩
    · cases hpin
  · rintro ⟨d, hd, rfl⟩
    exact ⟨_, hd, beq_self_eq_true _⟩

/-- Unlinked draw nodes are bound to no shader. -/
theorem Heard.unbound (h : Heard e) (hd : .draw d ∈ e.nodes)
    (hnil : e.graph.neighbors d.shader = []) : d.bindings = [] ∧ d.bound = noIndex := by
  have hbased : e.Based True [] := by
    clear hd hnil
    induction h with
    | new services settings => exact .new services settings
    | step h op _ whole ih => exact ih.apply h.reached.outbox whole
  obtain ⟨hbindings, _, hbound⟩ := hbased.isBase h.reached.outbox hd List.not_mem_nil hnil
  exact ⟨hbindings, hbound trivial⟩

/-- A link is cut, and that it is cut makes no other event. -/
theorem unlink_eq (hc : e.graph.Consistent) (hidle : e.graph.outbox = [])
    (hf : e.graph.edge? k = some f) (hx : f.kind = .external) :
    ∃ g, e.graph.ErasesEdge f g ∧ ∀ e',
      (e.withGraph { g with outbox := [] }).deliver (.linkDeleted f.source f.target) = e' →
        e'.graph.outbox = [] → e.unlink k = (.ok (), e') := by
  obtain ⟨g, hg, herases⟩ := hc.eraseEdge hf
  refine ⟨g, herases, fun e' hdeliver hquiet => ?_⟩
  have houtbox : g.outbox = [.linkDeleted f.source f.target] := by
    rw [herases.outbox, hidle, hx]
    rfl
  have hdrain : (e.withGraph g).drain = e' := by
    rw [← hdeliver] at hquiet ⊢
    exact drainUpTo_event (e := e.withGraph g) houtbox hquiet
  have hext : f.isExternal = true := by rw [Edge.isExternal, hx]; rfl
  simp only [unlink, hf, hext, hg, hdrain, Bool.not_true, Bool.false_eq_true, if_false]

/-- A UI node that is put in the place of another, and then this one again. -/
theorem replace_replace {n n' : UiNode} (hnodup : (e.nodes.map UiNode.id).Nodup)
    (hn : n ∈ e.nodes) (hid : n'.id = n.id) (s s' : Scene) :
    ({ (({ e with scene := s } : Editor).replace n') with scene := s' } : Editor).replace n =
      { e with scene := s' } := by
  have hnodes : (e.nodes.map fun m => if m.id = n'.id then n' else m).map
      (fun m => if m.id = n.id then n else m) = e.nodes := by
    rw [List.map_map]
    refine (List.map_congr_left fun m hm => ?_).trans (List.map_id _)
    dsimp only [Function.comp_apply, id]
    rw [hid]
    by_cases hm' : m.id = n.id
    · rw [if_pos hm', if_pos hid]
      exact (List.inj_on_of_nodup_map hnodup hm hn hm').symm
    · rw [if_neg hm', if_neg hm']
  rw [replace, replace]
  dsimp only
  rw [hnodes]

/-! ## Links that are made and cut -/

section Linked

variable {g : Graph} {s x : Scene} {bs : List Binding} {index : Int32}

/-- A link to a pin that is nobody's shader. -/
theorem unlink_of_ne (hc : e.graph.Consistent) (hnodup : (e.nodes.map UiNode.id).Nodup)
    (hidle : e.graph.outbox = []) (hnil : e.graph.neighbors f.source = [])
    (hadds : e.graph.AddsEdge f g) (hx : f.kind = .external)
    (hne : ∀ d, .draw d ∈ e.nodes → d.shader ≠ f.source) :
    (e.withGraph { g with outbox := [] }).unlink f.id =
      (.ok (), { e with scene := e.scene.withNextId g.nextId }) := by
  have hlinked : Scene.Links f e.scene { e.scene with graph := { g with outbox := [] } } :=
    links_addEdge hadds []
  have hc' : ({ g with outbox := [] } : Graph).Consistent := hadds.consistent.withOutbox []
  obtain ⟨g', herases, hunlink⟩ := unlink_eq (e := e.withGraph { g with outbox := [] })
    hc' rfl ((hadds.edge? f.id).trans (if_pos rfl)) hx
  have hdeliver : (e.withGraph { g' with outbox := [] }).deliver
      (.linkDeleted f.source f.target) = e.withGraph { g' with outbox := [] } :=
    deliver_of_ne hnodup rfl hne
  have hsame : Trims [] [] { e.scene with graph := { g with outbox := [] } }
      ({ e.scene with graph := { g with outbox := [] } }.withNextId g.nextId) := .refl hc'
  have htrims := hsame.unlink hlinked hc hnil List.not_mem_nil hadds.nextId_le herases []
  have hscene : ({ e.scene with graph := { g' with outbox := [] } } : Scene) =
      e.scene.withNextId g.nextId :=
    (Trims.refl (herases.consistent.withOutbox [])).unique htrims hidle.symm
  rw [hunlink _ hdeliver rfl]
  exact congrArg (fun s => (Except.ok (), ({ e with scene := s } : Editor))) hscene

/-- The inputs that a link made are dropped with it. -/
theorem unlink_shader (hc : e.graph.Consistent) (hnodup : (e.nodes.map UiNode.id).Nodup)
    (hidle : e.graph.outbox = []) (hd : .draw d ∈ e.nodes)
    (hbase : d.bindings = [] ∧ d.bound = noIndex) (hnil : e.graph.neighbors d.shader = [])
    (hadds : e.graph.AddsEdge ⟨edge, d.shader, output, .external⟩ g)
    (hbuds : d.Buds index bs { e.scene with graph := { g with outbox := [] } } x)
    (hs : (({ e with scene := x } : Editor).replace
      (.draw { d with bindings := bs, bound := index })).Sound w) :
    (({ e with scene := x } : Editor).replace
        (.draw { d with bindings := bs, bound := index })).unlink edge =
      (.ok (), { e with
        scene := (e.scene.write d.shader (.int noIndex)).withNextId x.graph.nextId }) := by
  have hc' : ({ g with outbox := [] } : Graph).Consistent := hadds.consistent.withOutbox []
  have hedge : x.graph.edge? edge = some ⟨edge, d.shader, output, .external⟩ := by
    refine hbuds.sprouts.edge edge _ ?_
    rw [edge?_write]
    exact (hadds.edge? edge).trans (if_pos rfl)
  have hquiet : x.graph.outbox = [] := hbuds.sprouts.outbox.trans (outbox_write ..)
  obtain ⟨g', herases, hunlink⟩ := unlink_eq (e := ({ e with scene := x } : Editor).replace
    (.draw { d with bindings := bs, bound := index })) hbuds.sprouts.consistent hquiet hedge rfl
  -- the draw node drops its inputs
  have hmem : .draw { d with bindings := bs, bound := index } ∈ (({ e with scene := x } :
      Editor).replace (.draw { d with bindings := bs, bound := index })).nodes :=
    List.mem_map.2 ⟨.draw d, hd, if_pos rfl⟩
  have hattentive : ((({ e with scene := x } : Editor).replace
      (.draw { d with bindings := bs, bound := index })).withGraph
        { g' with outbox := [] }).Attentive :=
    ⟨hs.attentive.nodup, hs.attentive.bus, hs.attentive.listens, hs.attentive.apart⟩
  have hlive : ∀ p ∈ bs.map (·.pin), ({ g' with outbox := [] } : Graph).hasNode p := by
    intro p hp
    obtain ⟨kind, hrole⟩ := hs.role_param hmem hp
    have hnode : x.graph.hasNode p := hs.wired.hasNode hrole
    rw [hasNode_eq] at hnode ⊢
    exact (congrArg Option.isSome (herases.node? p)).trans hnode
  have hparams := hs.pins_apart hmem
  obtain ⟨s', cut, hdeliver, htrims, hcuts⟩ := hattentive.deliver_linkDeleted
    (herases.consistent.withOutbox []) hmem hparams.1 hlive output
  obtain rfl := hbuds.cut_eq_nil hc' herases htrims hcuts
  -- what is left is what was there before
  have hrewrite := (trims_rewrite hc' d.shader index
    (s := { e.scene with graph := { g with outbox := [] } })).withNextId
      (show _ ≤ x.graph.nextId by rw [nextId_write]; exact hbuds.nextId)
  have hunset : Trims (bs.map (·.pin)) [d.shader] x ((Scene.write
      { e.scene with graph := { g with outbox := [] } } d.shader (.int noIndex)).withNextId
        x.graph.nextId) :=
    (hbuds.trims.trans hrewrite fun p hp => List.mem_singleton.1 hp ▸ hparams.2).congr
      (fun j => by rw [List.append_nil]) fun _ => .rfl
  have hafter := hunset.unlink ((links_addEdge hadds []).write d.shader (.int noIndex))
    (consistent_write hc _ _) (by rwa [neighbors_write]) hparams.2
    (by rw [nextId_write]; exact UInt32.le_trans hadds.nextId_le hbuds.nextId) herases []
  have hscene : s' = (e.scene.write d.shader (.int noIndex)).withNextId x.graph.nextId := by
    exact htrims.unique hafter (hcuts.outbox.trans ((outbox_write ..).trans hidle).symm)
  have hunbound : ({ d with bindings := bs, bound := index } : Draw).unbound = d := by
    rw [Draw.unbound, ← hbase.1, ← hbase.2]
  have hid : (UiNode.draw { d with bindings := bs, bound := index }).id = (UiNode.draw d).id := rfl
  rw [hunlink _ hdeliver hcuts.outbox, hunbound, hscene]
  exact congrArg (Prod.mk _) (replace_replace hnodup hd hid x _)

end Linked

/-- What a link did, cutting it at once undoes. -/
theorem Heard.unlink_link (h : Heard e) (hserved : (Operation.link a b).Served e)
    (hlink : (e.link a b).1 = .ok edge) :
    ∃ input output, e.orient a b = .ok (input, output) ∧
      e.graph.nextId < (e.link a b).2.graph.nextId ∧
        (e.link a b).2.unlink edge =
          (.ok (), { e with
            scene := (e.unset input).withNextId (e.link a b).2.graph.nextId }) := by
  obtain ⟨w, hs⟩ := h.reached.sound
  have hidle := h.reached.outbox
  have hc := hs.wired.consistent
  obtain ⟨e', hmade⟩ : ∃ e', e.makeLink a b = .ok (edge, e') := by
    unfold link at hlink
    split at hlink
    · next edge' e' hmade => exact ⟨e', by rw [hmade, Except.ok.inj hlink]⟩
    · cases hlink
  obtain ⟨w', hs', _⟩ := carries_link hserved w hs
  have hafter : (e.link a b).2 = e'.drain := by rw [link, hmade]
  obtain ⟨input, output, g, horient, hcheck, hadd, rfl⟩ := makeLink_eq_ok hmade
  obtain ⟨_, _, hadds⟩ := hc.addEdge hadd
  have hnil : e.graph.neighbors input = [] :=
    hc.outDegree_eq_zero_iff.1 (checkLink_eq_ok hcheck).2.2.1
  have houtbox := outbox_of_addsEdge hidle hadds
  have hgrown : e.graph.nextId < g.nextId := hadds.id_eq ▸ hadds.lt_nextId
  refine ⟨input, output, horient, ?_⟩
  rw [hafter] at hs' ⊢
  by_cases hdraw : ∃ d, .draw d ∈ e.nodes ∧ d.shader = input
  · have hunset : e.unset input = e.scene.write input (.int noIndex) :=
      if_pos (isShaderPin_iff.2 hdraw)
    rw [hunset]
    obtain ⟨d, hd, rfl⟩ := hdraw
    have hbase := h.unbound hd hnil
    have hattentive : (e.withGraph { g with outbox := [] }).Attentive :=
      ⟨hs.attentive.nodup, hs.attentive.bus, hs.attentive.listens, hs.attentive.apart⟩
    have hasked : d.EventServed (e.withGraph { g with outbox := [] }).scene
        (.linkCreated d.shader output) := hattentive.eventServed rfl hd
      (hserved edge _ hmade _ _ (takeEvent_of_outbox houtbox)).1
    obtain ⟨index, bs, x, _, hbuds, hdrain, _⟩ :=
      drain_link_shader hs h.reached.tidy hidle hd hbase.1 hadds hasked
    rw [hdrain] at hs' ⊢
    exact ⟨UInt32.lt_of_lt_of_le hgrown hbuds.nextId,
      unlink_shader hc hs.attentive.nodup hidle hd hbase hnil hadds hbuds hs'⟩
  · have hne : ∀ d, .draw d ∈ e.nodes → d.shader ≠ input :=
      fun d hd hshader => hdraw ⟨d, hd, hshader⟩
    have hunset : e.unset input = e.scene := if_neg fun hpin => hdraw (isShaderPin_iff.1 hpin)
    rw [hunset, (drain_link_of_ne hs.attentive.nodup hidle hadds hne).1]
    exact ⟨hgrown, unlink_of_ne hc hs.attentive.nodup hidle hnil hadds rfl hne⟩

/-- The lamp is linked and at once cut off again. -/
theorem unlink_link_unlit : (Operation.link 4 1).Served unlit ∧ (unlit.link 4 1).1 = .ok 10 ∧
    unlit.isShaderPin 4 ∧ ∃ input output, unlit.orient 4 1 = .ok (input, output) ∧
      unlit.graph.nextId < (unlit.link 4 1).2.graph.nextId ∧
        (unlit.link 4 1).2.unlink 10 =
          (.ok (), { unlit with
            scene := (unlit.unset input).withNextId (unlit.link 4 1).2.graph.nextId }) := by
  have hserved : (Operation.link 4 1).Served unlit := by decide +kernel
  have hlink : (unlit.link 4 1).1 = .ok 10 := by decide +kernel
  exact ⟨hserved, hlink, by decide +kernel, heard_unlit.unlink_link hserved hlink⟩

end Editor

end DrawGraph
