import DrawGraph.Proofs.Editor.Hearing
import DrawGraph.Proofs.Editor.Resuming
import DrawGraph.Proofs.UiNode.Sprout

/-!
# What a link does

A link is made just when two pins of different UI nodes fit and no cycle closes. It is one edge from
the input to the output, whichever was named first. Only a draw node that it gives a shader makes
more of it: inputs for the variables of the shader.
-/

namespace DrawGraph

open DrawGraph.Graph

namespace Graph

variable {g g' : Graph} {source target edge : Id} {kind : EdgeKind}

theorem nextId_ne_of_addEdge (h : g.addEdge source target kind = .ok (edge, g')) :
    g.nextId ≠ lastId := by
  intro hlast
  simp only [addEdge, allocate, hlast, bind, Except.bind, pure, Except.pure] at h
  split at h
  · cases h
  · split at h <;> cases h

/-- An edge closes a cycle just when its target leads to its source. -/
theorem AddsEdge.acyclic_iff {e : Edge} (h : g.Acyclic) (he : g.AddsEdge e g') :
    g'.Acyclic ↔ ¬ g.Leads e.target e.source := by
  constructor
  · intro h' hlead
    have hstep : g'.Step e.source e.target := by
      rw [Step, he.neighbors, if_pos rfl]
      exact List.mem_append_right _ (List.mem_singleton_self _)
    have hkept (a b : Id) (hab : g.Step a b) : g'.Step a b := by
      rw [Step, he.neighbors]
      split
      · exact List.mem_append_left _ hab
      · exact hab
    exact h'.not_leads hstep (Relation.ReflTransGen.mono hkept _ _ hlead)
  · intro hlead
    refine h.of_step_imp_or hlead fun a b hab => ?_
    rw [Step, he.neighbors] at hab
    split at hab
    · next ha => exact (List.mem_append.1 hab).imp_right fun hb => ⟨ha, List.mem_singleton.1 hb⟩
    · exact Or.inl hab

end Graph

namespace Editor

variable {w : Wiring} {e : Editor} {a b input output edge : Id} {n : UiNode} {d : Draw}

/-! ## When a link is made -/

/-- An input and an output that a link may join. -/
structure Linkable (e : Editor) (input output : Id) : Prop where
  isInput : ∃ n, e.graph.node? input = some n ∧ n.direction = .input
  isOutput : ∃ n, e.graph.node? output = some n ∧ n.direction = .output
  apart : ∃ m ∈ e.nodes, ∃ n ∈ e.nodes, input ∈ m.inputs ∧ output ∈ n.outputs ∧ m.id ≠ n.id
  feeds : ∃ u v, e.values.get? input = some u ∧ e.values.get? output = some v ∧
    v.kind.canFeed u.kind
  free : e.graph.edgesFrom input = []
  ahead : ¬ e.graph.Leads output input
  room : e.graph.nextId ≠ lastId

theorem orient_eq (h : e.orient a b = .ok (input, output)) :
    input = a ∧ output = b ∨ input = b ∧ output = a := by
  unfold orient at h
  split at h
  · cases h
  · cases h
  · split at h
    · cases h
    split at h
    · cases h
    split at h
    · cases h
    split at h <;> cases h
    · exact Or.inl ⟨rfl, rfl⟩
    · exact Or.inr ⟨rfl, rfl⟩

/-- Whichever pin is named first, the input is the one. -/
theorem orient_of_directions (hi : ∃ n, e.graph.node? input = some n ∧ n.direction = .input)
    (ho : ∃ n, e.graph.node? output = some n ∧ n.direction = .output) :
    e.orient input output = .ok (input, output) ∧ e.orient output input = .ok (input, output) := by
  obtain ⟨m, hm, hmdir⟩ := hi
  obtain ⟨n, hn, hndir⟩ := ho
  constructor <;> simp [orient, hm, hn, hmdir, hndir, Direction.isPin]

theorem Sound.ownerOf_pin (hs : e.Sound w) (hn : n ∈ e.nodes) {p : Id} (hp : p ∈ n.pins) :
    e.ownerOf p = some n.id := by
  obtain ⟨r, hr, hhome⟩ := (hs.casts.plays n hn).home_eq (List.mem_cons_of_mem _ hp)
  cases howner : e.ownerOf p with
  | some owner => rw [hs.ownerOf_eq hr hhome howner]
  | none =>
      unfold ownerOf at howner
      split at howner
      · cases howner
      · have hnone := List.find?_eq_none.1 (Option.map_eq_none_iff.1 howner) n hn
        simp [hp] at hnone

theorem edgesFrom_eq_nil_iff (hc : e.graph.Consistent) (id : Id) :
    e.graph.edgesFrom id = [] ↔ e.graph.outDegree id = 0 := by
  rw [hc.outDegree_eq_zero_iff]
  constructor
  · intro h
    have hperm := hc.perm id
    rw [h] at hperm
    exact hperm.eq_nil
  · intro h
    have hperm := hc.perm id
    rw [h] at hperm
    exact List.map_eq_nil_iff.1 hperm.symm.eq_nil

theorem Linkable.checkLink (h : e.Linkable input output) (hs : e.Sound w) :
    e.checkLink input output = .ok () := by
  obtain ⟨m, hm, n, hn, hi, ho, hne⟩ := h.apart
  obtain ⟨u, v, hu, hv, hfeed⟩ := h.feeds
  have hinput := hs.ownerOf_pin hm (List.mem_append_left _ hi)
  have houtput := hs.ownerOf_pin hn (List.mem_append_right _ ho)
  have hdegree := (edgesFrom_eq_nil_iff hs.wired.consistent input).1 h.free
  have hreach : e.graph.reaches output input = false := by
    rw [Bool.eq_false_iff, Ne, reaches_iff]
    exact h.ahead
  simp [Editor.checkLink, pinKind, ValueStore.fetch, hinput, houtput, hne, hu, hv, hfeed, hdegree,
    hreach, bind, Except.bind, pure, Except.pure]

/-- The same link is made in either order. -/
theorem Linkable.makeLink (h : e.Linkable input output) (hs : e.Sound w) :
    ∃ edge g, e.graph.addEdge input output .external = .ok (edge, g) ∧
      e.makeLink input output = .ok (edge, e.withGraph g) ∧
        e.makeLink output input = .ok (edge, e.withGraph g) := by
  have hlive {id : Id} {dir : Direction}
      (hid : ∃ n, e.graph.node? id = some n ∧ n.direction = dir) : e.graph.hasNode id := by
    obtain ⟨n, hn, _⟩ := hid
    rw [hasNode_eq, hn]
    rfl
  obtain ⟨edge, g, hadd⟩ : ∃ edge g, e.graph.addEdge input output .external = .ok (edge, g) :=
    addEdge_eq_ok (hlive h.isInput) (hlive h.isOutput) h.room
  obtain ⟨horient, horient'⟩ := orient_of_directions h.isInput h.isOutput
  refine ⟨edge, g, hadd, ?_, ?_⟩
  · simp [Editor.makeLink, horient, h.checkLink hs, hadd, bind, Except.bind, pure, Except.pure,
      Except.mapError]
  · simp [Editor.makeLink, horient', h.checkLink hs, hadd, bind, Except.bind, pure, Except.pure,
      Except.mapError]

theorem Sound.linkable (hs : e.Sound w) {e' : Editor} (h : e.makeLink a b = .ok (edge, e')) :
    e.Linkable a b ∨ e.Linkable b a := by
  obtain ⟨input, output, g, horient, hcheck, hadd, rfl⟩ := makeLink_eq_ok h
  obtain ⟨hi, ho⟩ := orient_eq_ok horient
  obtain ⟨⟨p, q, hp, hq, hpq⟩, ⟨k, k', hk, hk', hfeed⟩, hdegree, hreach⟩ := checkLink_eq_ok hcheck
  have hlinkable : e.Linkable input output := by
    refine ⟨hi, ho, ?_, ?_, (edgesFrom_eq_nil_iff hs.wired.consistent input).2 hdegree, ?_,
      nextId_ne_of_addEdge hadd⟩
    · obtain ⟨m, hm, hmdir⟩ := hi
      obtain ⟨n, hn, hndir⟩ := ho
      obtain ⟨owner, kind, hinput⟩ := hs.input_of_direction hm hmdir
      obtain ⟨owner', offer, houtput⟩ := hs.output_of_direction hn hndir
      obtain ⟨m, hm, rfl, hi⟩ := hs.input_node hinput
      obtain ⟨n, hn, rfl, ho⟩ := hs.output_node houtput
      rw [hs.ownerOf_eq hinput rfl hp, hs.ownerOf_eq houtput rfl hq] at hpq
      exact ⟨m, hm, n, hn, hi, ho, hpq⟩
    · obtain ⟨u, hu, rfl⟩ := pinKind_eq_ok hk
      obtain ⟨v, hv, rfl⟩ := pinKind_eq_ok hk'
      exact ⟨u, v, hu, hv, hfeed⟩
    · rw [← reaches_iff, hreach]
      simp
  rcases orient_eq horient with ⟨rfl, rfl⟩ | ⟨rfl, rfl⟩
  · exact Or.inl hlinkable
  · exact Or.inr hlinkable

/-! ## Who hears of it -/

/-- What is asked before each observer is told, is asked before the first that minds is. -/
theorem Along.of_mem {α : Type} {p : Editor → α → Prop} {f : Editor → α → Editor} {as : List α}
    {x : α} (h : Along p f as e) (hx : x ∈ as) (hf : ∀ y, y ≠ x → f e y = e) : p e x := by
  induction as with
  | nil => cases hx
  | cons y as ih =>
      obtain ⟨hy, hrest⟩ := h
      by_cases hyx : y = x
      · exact hyx ▸ hy
      · rw [hf y hyx] at hrest
        exact ih hrest ((List.mem_cons.1 hx).resolve_left (Ne.symm hyx))

/-- A draw node is not refused an id by an event that no observer is refused one by. -/
theorem Attentive.eventServed (h : e.Attentive) {event : Event}
    (hpin : event.pin? = some d.shader) (hd : .draw d ∈ e.nodes)
    (hasked : Along (NotifyServed event) (notify event) e.bus e) : d.EventServed e.scene event := by
  have hothers (id : Id) (hne : id ≠ d.id) : notify event e id = e :=
    notify_of_ne h.nodup hpin fun d' hd' hshader heq =>
      hne (heq.symm.trans (h.apart d d' hd hd' hshader))
  have hfind : e.node? d.id = some (.draw d) := UiNode.find?_id h.nodup hd
  exact hasked.of_mem (h.listens d hd) hothers (.draw d) hfind d rfl

/-! ## What becomes of the graph -/

/-- The graph has one more link, and besides at most inputs for the variables of a shader with the
edges to them. When no id was refused, no other node is new. -/
structure Gains (served : Prop) (e e' : Editor) (edge input output : Id) : Prop where
  fresh : e.graph.hasEdge edge = false
  linked : e'.graph.edge? edge = some ⟨edge, input, output, .external⟩
  kept : ∀ i f, e.graph.edge? i = some f → e'.graph.edge? i = some f
  added : ∀ i f, e'.graph.edge? i = some f → e.graph.edge? i = some f ∨ i = edge ∨
    ∃ d : Draw, .draw d ∈ e'.nodes ∧ d.shader = input ∧
      ∃ b ∈ d.bindings, f = ⟨i, d.id, b.pin, .internal⟩
  node : ∀ id n, e.graph.node? id = some n →
    ∃ x, e'.graph.node? id = some { n with value := x } ∧ (id ≠ input → x = n.value)
  binding : ∀ d : Draw, .draw d ∈ e'.nodes → d.shader = input →
    ∀ b ∈ d.bindings, e.graph.hasNode b.pin = false
  alone : served → ∀ id, e'.graph.hasNode id → e.graph.hasNode id ∨
    ∃ d : Draw, .draw d ∈ e'.nodes ∧ d.shader = input ∧ ∃ b ∈ d.bindings, b.pin = id

/-- An editor with one more link of which nobody has heard. -/
structure Joins (e e' : Editor) (edge input output : Id) : Prop where
  consistent : e'.graph.Consistent
  fresh : e.graph.hasEdge edge = false
  nodes : e'.nodes = e.nodes
  node? : ∀ id, e'.graph.node? id = e.graph.node? id
  edge? : ∀ i, e'.graph.edge? i =
    if i = edge then some ⟨edge, input, output, .external⟩ else e.graph.edge? i

variable {e' : Editor} {served : Prop}

theorem Joins.kept (h : Joins e e' edge input output) {i : Id} {f : Edge}
    (hf : e.graph.edge? i = some f) : e'.graph.edge? i = some f := by
  rw [h.edge?, if_neg, hf]
  rintro rfl
  have hfresh := h.fresh
  rw [hasEdge_eq, hf] at hfresh
  cases hfresh

theorem Joins.added (h : Joins e e' edge input output) {i : Id} {f : Edge}
    (hf : e'.graph.edge? i = some f) : e.graph.edge? i = some f ∨ i = edge := by
  rw [h.edge?] at hf
  split at hf
  · next hi => exact Or.inr hi
  · exact Or.inl hf

theorem Joins.hasNode (h : Joins e e' edge input output) (id : Id) :
    e'.graph.hasNode id = e.graph.hasNode id := by
  rw [hasNode_eq, h.node?, ← hasNode_eq]

theorem Joins.gains (h : Joins e e' edge input output)
    (hne : ∀ d, .draw d ∈ e.nodes → d.shader ≠ input) : Gains served e e' edge input output where
  fresh := h.fresh
  linked := (h.edge? edge).trans (if_pos rfl)
  kept _ _ hf := h.kept hf
  added _ _ hf := (h.added hf).imp_right Or.inl
  node id n hn := ⟨n.value, (h.node? id).trans hn, fun _ => rfl⟩
  binding d hd hshader := absurd hshader (hne d (h.nodes ▸ hd))
  alone _ id hid := Or.inl ((h.hasNode id).symm.trans hid)

/-- The draw node has the new inputs, and no other has that shader pin. -/
theorem Joins.gains_act (h : Joins e e' edge d.shader output) (hd : .draw d ∈ e.nodes)
    (hbase : d.bindings = [])
    (hone : ∀ d', .draw d' ∈ e.nodes → d'.shader = d.shader → d'.id = d.id)
    (hserved : served → d.EventServed e'.scene (.linkCreated d.shader output)) :
    Gains served e (e'.act (.draw d) (·.onEvent (.linkCreated d.shader output))) edge d.shader
      output := by
  obtain ⟨shader, bs, hacted, hsprouts, hall⟩ := Draw.onEvent_sprouts h.consistent hbase output
  have hact : e'.act (.draw d) (·.onEvent (.linkCreated d.shader output)) =
      ({ e' with scene := (d.onEvent e'.scene (.linkCreated d.shader output)).2 } : Editor).replace
        (.draw (d.onEvent e'.scene (.linkCreated d.shader output)).1) := rfl
  rw [hact, hacted]
  generalize (d.onEvent e'.scene (.linkCreated d.shader output)).2 = s at hsprouts hall
  have hnow : UiNode.draw { d with bindings := bs, bound := shader } ∈
      (({ e' with scene := s } : Editor).replace
        (.draw { d with bindings := bs, bound := shader })).nodes :=
    List.mem_map.2 ⟨.draw d, h.nodes ▸ hd, if_pos rfl⟩
  have honly : ∀ d', .draw d' ∈ (({ e' with scene := s } : Editor).replace
      (.draw { d with bindings := bs, bound := shader })).nodes → d'.shader = d.shader →
        d'.bindings = bs := by
    intro d' hd' hshader
    rcases mem_replace hd' with heq | ⟨hd', hne⟩
    · rw [UiNode.draw.inj heq]
    · exact absurd (hone d' (h.nodes ▸ hd') hshader) hne
  have hedge (i : Id) : (e'.scene.write d.shader (.int shader)).graph.edge? i = e'.graph.edge? i :=
    Scene.edge?_write ..
  have hnode (i : Id) : (e'.scene.write d.shader (.int shader)).graph.node? i =
      (e.graph.node? i).map fun n => if i = d.shader then
        { n with value := (Value.int shader).scalar?.getD n.value } else n := by
    rw [Scene.node?_write]
    exact congrArg _ (h.node? i)
  have hlive (i : Id) : (e'.scene.write d.shader (.int shader)).graph.hasNode i =
      e.graph.hasNode i := by
    rw [hasNode_eq, hnode, Option.isSome_map, ← hasNode_eq]
  refine
    { fresh := h.fresh
      linked := hsprouts.edge edge _ ((hedge edge).trans ((h.edge? edge).trans (if_pos rfl)))
      kept := fun i f hf => hsprouts.edge i f ((hedge i).trans (h.kept hf))
      added := ?_
      node := ?_
      binding := ?_
      alone := ?_ }
  · intro i f hf
    rcases hsprouts.sprout i f hf with hf | ⟨p, hp, rfl⟩
    · exact (h.added ((hedge i).symm.trans hf)).imp_right Or.inl
    · obtain ⟨b, hb, rfl⟩ := List.mem_map.1 hp
      exact Or.inr (Or.inr ⟨_, hnow, rfl, b, hb, rfl⟩)
  · intro id n hn
    have hwritten := hnode id
    rw [hn, Option.map_some] at hwritten
    by_cases hid : id = d.shader
    · rw [if_pos hid] at hwritten
      exact ⟨_, hsprouts.node id _ hwritten, fun hne => absurd hid hne⟩
    · rw [if_neg hid] at hwritten
      exact ⟨_, hsprouts.node id _ hwritten, fun _ => rfl⟩
  · intro d' hd' hshader b hb
    rw [honly d' hd' hshader] at hb
    rw [← hlive]
    exact hsprouts.fresh b.pin (List.mem_map_of_mem hb)
  · intro hs id hid
    refine (hall (hserved hs) id hid).imp (fun hid => (h.hasNode id).symm.trans hid) fun hid => ?_
    obtain ⟨b, hb, rfl⟩ := List.mem_map.1 hid
    exact ⟨_, hnow, rfl, b, hb, rfl⟩

/-- Before the events of a link are delivered, the link is all that is new. -/
theorem joins_of_addEdge (hc : e.graph.Consistent) {g : Graph}
    (h : e.graph.addEdge input output .external = .ok (edge, g)) :
    Joins e (e.withGraph { g with outbox := [] }) edge input output ∧
      g.outbox = e.graph.outbox ++ [.linkCreated input output] := by
  obtain ⟨_, _, he⟩ := hc.addEdge h
  exact ⟨⟨he.consistent.withOutbox [], he.fresh, rfl, he.node?, he.edge?⟩, he.outbox⟩

theorem drainUpTo_of_outbox {limit : Nat} (h : e.graph.outbox = []) :
    drainUpTo (limit + 1) e = e := by
  have htake : e.graph.takeEvent = none := by
    unfold takeEvent
    rw [h]
  rw [drainUpTo, htake]

theorem takeEvent_of_outbox {g : Graph} {event : Event} {events : List Event}
    (h : g.outbox = event :: events) : g.takeEvent = some (event, { g with outbox := events }) := by
  unfold takeEvent
  rw [h]

/-- One event that makes no others. -/
theorem drainUpTo_event {event : Event} {limit : Nat} (houtbox : e.graph.outbox = [event])
    (hquiet : ((e.withGraph { e.graph with outbox := [] }).deliver event).graph.outbox = []) :
    drainUpTo (limit + 2) e = (e.withGraph { e.graph with outbox := [] }).deliver event := by
  rw [drainUpTo, takeEvent_of_outbox houtbox]
  exact drainUpTo_of_outbox hquiet

/-- A draw node without a link to its shader pin has nothing of a shader. -/
def BareUnlinked (e : Editor) : Prop :=
  ∀ d, .draw d ∈ e.nodes → e.graph.edgesFrom d.shader = [] → d.bindings = []

/-- The event of a link reaches the draw node it is for, and makes no more events. -/
theorem Sound.gains (hs : e.Sound w) (hidle : e.graph.outbox = []) (hbare : e.BareUnlinked)
    (hfree : e.graph.edgesFrom input = []) {g : Graph}
    (h : e.graph.addEdge input output .external = .ok (edge, g)) {limit : Nat}
    (hserved : served → DrainServed (limit + 2) (e.withGraph g)) :
    Gains served e (drainUpTo (limit + 2) (e.withGraph g)) edge input output := by
  obtain ⟨hjoins, houtbox⟩ := joins_of_addEdge hs.wired.consistent h
  rw [hidle, List.nil_append] at houtbox
  have hattentive : (e.withGraph { g with outbox := [] }).Attentive :=
    ⟨hs.attentive.nodup, hs.attentive.bus, hs.attentive.listens, hs.attentive.apart⟩
  by_cases hdraw : ∃ d, .draw d ∈ e.nodes ∧ d.shader = input
  · obtain ⟨d, hd, rfl⟩ := hdraw
    have hbase := hbare d hd hfree
    have hdeliver : (e.withGraph { g with outbox := [] }).deliver (.linkCreated d.shader output) =
        _ := hattentive.deliver_eq rfl hd
    obtain ⟨shader, bs, _, hsprouts, _⟩ := Draw.onEvent_sprouts hjoins.consistent hbase output
    have hquiet : ((e.withGraph { g with outbox := [] }).act (.draw d)
        (·.onEvent (.linkCreated d.shader output))).graph.outbox = [] :=
      hsprouts.outbox.trans (Scene.outbox_write ..)
    rw [drainUpTo_event (e := e.withGraph g) houtbox (hdeliver.symm ▸ hquiet)]
    exact hdeliver.symm ▸ hjoins.gains_act hd hbase (fun d' hd' => hs.attentive.apart d d' hd hd')
      fun hs' => hattentive.eventServed rfl hd
        (hserved hs' _ _ (takeEvent_of_outbox houtbox)).1
  · have hne : ∀ d, .draw d ∈ e.nodes → d.shader ≠ input :=
      fun d hd hshader => hdraw ⟨d, hd, hshader⟩
    have hdeliver : (e.withGraph { g with outbox := [] }).deliver (.linkCreated input output) =
        e.withGraph { g with outbox := [] } :=
      deliver_of_ne hattentive.nodup rfl hne
    rw [drainUpTo_event (e := e.withGraph g) houtbox (congrArg (·.graph.outbox) hdeliver)]
    exact hdeliver.symm ▸ hjoins.gains hne

/-! ## Links are exact -/

/-- Two nodes are linked just when one is an input and the other an output that fit. The graph is
then the same in either order, and the editor is as it was when they are not. -/
structure LinksExactly (e : Editor) (a b : Id) : Prop where
  succeeds : (∃ edge, (e.link a b).1 = .ok edge) ↔ e.Linkable a b ∨ e.Linkable b a
  gains : ∀ edge, (e.link a b).1 = .ok edge → e.link b a = e.link a b ∧
    ∃ input output, (input = a ∧ output = b ∨ input = b ∧ output = a) ∧
      e.Linkable input output ∧
        Gains ((Operation.link a b).Served e) e (e.link a b).2 edge input output
  fails : ∀ err, (e.link a b).1 = .error err → (e.link a b).2 = e

theorem Sound.linksExactly (hs : e.Sound w) (hidle : e.graph.outbox = [])
    (hbare : e.BareUnlinked) (a b : Id) : e.LinksExactly a b := by
  have hmade {edge : Id} (h : (e.link a b).1 = .ok edge) :
      ∃ e', e.makeLink a b = .ok (edge, e') := by
    unfold link at h
    split at h
    · next edge' e' hmade => exact ⟨e', by rw [hmade, Except.ok.inj h]⟩
    · cases h
  refine ⟨⟨fun ⟨edge, h⟩ => ?_, fun h => ?_⟩, fun edge h => ?_, fun err h => ?_⟩
  · obtain ⟨e', hmade⟩ := hmade h
    exact hs.linkable hmade
  · rcases h with h | h
    · obtain ⟨edge, g, _, hmade, _⟩ := h.makeLink hs
      exact ⟨edge, by rw [link, hmade]⟩
    · obtain ⟨edge, g, _, _, hmade⟩ := h.makeLink hs
      exact ⟨edge, by rw [link, hmade]⟩
  · obtain ⟨e', hmade⟩ := hmade h
    have hboth {input output : Id} (hl : e.Linkable input output)
        (hab : input = a ∧ output = b ∨ input = b ∧ output = a) : e.link b a = e.link a b ∧
          Gains ((Operation.link a b).Served e) e (e.link a b).2 edge input output := by
      obtain ⟨edge', g, hadd, hio, hoi⟩ := hl.makeLink hs
      have hab' : e.makeLink a b = .ok (edge', e.withGraph g) ∧
          e.makeLink b a = .ok (edge', e.withGraph g) := by
        rcases hab with ⟨rfl, rfl⟩ | ⟨rfl, rfl⟩
        · exact ⟨hio, hoi⟩
        · exact ⟨hoi, hio⟩
      obtain rfl : edge' = edge := by
        rw [hab'.1] at hmade
        exact (Prod.mk.inj (Except.ok.inj hmade)).1
      have hgains : Gains ((Operation.link a b).Served e) e (drainUpTo (4094 + 2) (e.withGraph g))
          edge' input output :=
        hs.gains hidle hbare hl.free hadd fun hserved => hserved _ _ hab'.1
      rw [link, link, hab'.1, hab'.2]
      exact ⟨rfl, hgains⟩
    rcases hs.linkable hmade with hl | hl
    · obtain ⟨hsame, hgains⟩ := hboth hl (Or.inl ⟨rfl, rfl⟩)
      exact ⟨hsame, a, b, Or.inl ⟨rfl, rfl⟩, hl, hgains⟩
    · obtain ⟨hsame, hgains⟩ := hboth hl (Or.inr ⟨rfl, rfl⟩)
      exact ⟨hsame, b, a, Or.inr ⟨rfl, rfl⟩, hl, hgains⟩
  · unfold link at h ⊢
    split at h
    · cases h
    · rfl

/-- The editors that operations lead to from a new one, no id being refused and no event dropped. -/
inductive Heard : Editor → Prop
  | new (services : Services) (settings : EvalSettings) : Heard (.new services settings)
  | step {e : Editor} (h : Heard e) (op : Operation) (served : op.Served e) (whole : op.Whole e) :
      Heard (op.apply e)

theorem Heard.reached (h : Heard e) : Reached e := by
  induction h with
  | new services settings => exact .new services settings
  | step _ op served _ ih => exact .step ih op served

theorem Heard.resumed (h : Heard e) : Resumed [] e := by
  induction h with
  | new services settings => exact .new services settings
  | step _ op _ whole ih => exact .step ih op whole

/-- The graph never has a cycle, and any two nodes are linked just when they may be. -/
theorem Heard.links (h : Heard e) : e.graph.Acyclic ∧
    (∀ input output edge g, e.graph.addEdge input output .external = .ok (edge, g) →
      (g.Acyclic ↔ ¬ e.graph.Leads output input)) ∧
        ∀ a b, e.LinksExactly a b := by
  obtain ⟨w, hs⟩ := h.reached.sound
  obtain ⟨hbased, hidle⟩ := h.resumed.based
  have hbare : e.BareUnlinked := by
    intro d hd hnil
    have hneighbors := (hs.wired.consistent.outDegree_eq_zero_iff).1
      ((edgesFrom_eq_nil_iff hs.wired.consistent d.shader).1 hnil)
    exact (hbased.isBase hidle hd List.not_mem_nil hneighbors).1
  refine ⟨hs.wired.acyclic, fun input output edge g hadd => ?_, hs.linksExactly hidle hbare⟩
  obtain ⟨_, _, he⟩ := hs.wired.consistent.addEdge hadd
  exact he.acyclic_iff hs.wired.acyclic

/-- The lamp before it is linked. -/
def unlit : Editor :=
  [.addNode .shader, .setAsset 0 (some "lamp"), .addNode .draw].foldl Operation.apply
    (.new { shaders := lampLibrary [⟨"tint", "float3"⟩] })

theorem heard_unlit : Heard unlit := by
  have hshader := (Heard.new { shaders := lampLibrary [⟨"tint", "float3"⟩] } {}).step
    (.addNode .shader) (by decide +kernel) trivial
  have hasset := hshader.step (.setAsset 0 (some "lamp")) trivial trivial
  exact hasset.step (.addNode .draw) (by decide +kernel) trivial

/-- It may be linked, and the draw node then gets its input. -/
theorem links_unlit : Heard unlit ∧ unlit.graph.Acyclic ∧ unlit.LinksExactly 4 1 ∧
    (unlit.link 4 1).1 = .ok 10 ∧ (Operation.link 4 1).Served unlit :=
  ⟨heard_unlit, heard_unlit.links.1, heard_unlit.links.2.2 4 1, by decide +kernel,
    by decide +kernel⟩

end Editor

end DrawGraph
