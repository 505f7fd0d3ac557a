import DrawGraph.Proofs.Editor.Lasting
import DrawGraph.Proofs.UiNode.Placing

/-!
# What every run of an editor keeps up

Also where ids run out, or more events wait than are delivered, the graph stays laid along a wiring
in which the UI nodes have their roles, and the observers are those among them that observe.
Besides, there is a condition on runs under which no event is ever dropped.
-/

namespace DrawGraph

open Wiring

/-! ## Deliveries -/

namespace Editor

/-- No event waits any more by the time that the limit is reached. -/
def DrainWhole : Nat → Editor → Prop
  | 0, e => e.graph.outbox = []
  | limit + 1, e => ∀ event g, e.graph.takeEvent = some (event, g) →
      DrainWhole limit ((e.withGraph g).deliver event)

instance decidableDrainWhole : (limit : Nat) → (e : Editor) → Decidable (DrainWhole limit e)
  | 0, _ => inferInstanceAs (Decidable (_ = _))
  | limit + 1, e =>
      match h : e.graph.takeEvent with
      | none => isTrue fun event g hg => by simp [h] at hg
      | some (event, g) =>
          have := decidableDrainWhole limit ((e.withGraph g).deliver event)
          decidable_of_iff (DrainWhole limit ((e.withGraph g).deliver event))
            ⟨fun hd event' g' hg => by
                cases h.symm.trans hg
                exact hd,
              fun hd => hd event g h⟩

/-- A property of the editor in which one UI node has taken over what is linked to it. -/
def OnTurn (D : Editor → Prop) (e : Editor) (id : Id) : Prop :=
  ∀ n, e.node? id = some n → D (e.act n (·.onUpdate e.clock))

end Editor

namespace Operation

open Editor

/-- A property of the editors whose events are delivered in the course of an operation. A UI node
that is added, and what is set on one, leaves no events to deliver. -/
def Drains (D : Editor → Prop) (e : Editor) : Operation → Prop
  | removeNode id => ∀ n, e.node? id = some n → D (e.dismiss n (n.onDelete.on e.scene).2)
  | link a b => ∀ edge e', e.makeLink a b = .ok (edge, e') → D e'
  | unlink edge => ∀ found g, e.graph.eraseEdge edge = .ok (found, g) → D (e.withGraph g)
  | reloadShader shader => ∀ l, e.scene.services.shaders.reload shader = .ok l →
      D ((e.withServices { e.scene.services with shaders := l }).withGraph
        (e.graph.pushEvent (.shaderUpdated shader)))
  | update dt | frame dt => Along (OnTurn D) updateNode (e.nodes.map (·.id)) (e.tick dt)
  | _ => True

instance {D : Editor → Prop} [DecidablePred D] (e : Editor) (id : Id) : Decidable (OnTurn D e id) :=
  match h : e.node? id with
  | none => isTrue fun n hn => by simp [h] at hn
  | some n => decidable_of_iff (D (e.act n (·.onUpdate e.clock)))
      ⟨fun hn k hk => Option.some.inj (h.symm.trans hk) ▸ hn, fun hn => hn n h⟩

instance decidableDrains {D : Editor → Prop} [DecidablePred D] (e : Editor) :
    (op : Operation) → Decidable (op.Drains D e)
  | removeNode id =>
      match h : e.node? id with
      | none => isTrue fun n hn => by simp [h] at hn
      | some n => decidable_of_iff (D (e.dismiss n (n.onDelete.on e.scene).2))
          ⟨fun hn k hk => Option.some.inj (h.symm.trans hk) ▸ hn, fun hn => hn n h⟩
  | link a b =>
      have := decidableOfOk (p := fun r : Id × Editor => D r.2) (e.makeLink a b)
      decidable_of_iff (∀ r, e.makeLink a b = .ok r → D r.2) Prod.forall
  | unlink edge =>
      have := decidableOfOk (p := fun r : Edge × Graph => D (e.withGraph r.2))
        (e.graph.eraseEdge edge)
      decidable_of_iff (∀ r, e.graph.eraseEdge edge = .ok r → D (e.withGraph r.2)) Prod.forall
  | reloadShader shader => decidableOfOk (e.scene.services.shaders.reload shader)
  | update dt | frame dt => inferInstanceAs (Decidable (Along (OnTurn D) updateNode _ _))
  | addNode _ | setRoot _ | setPin .. | setAsset .. | setShape .. | setColor .. | setLens ..
  | evaluate | serve _ | clear => inferInstanceAs (Decidable True)

/-- No event is dropped in the course of an operation. -/
def Whole (e : Editor) (op : Operation) : Prop := op.Drains (DrainWhole drainLimit) e

instance (e : Editor) (op : Operation) : Decidable (op.Whole e) :=
  decidableDrains (D := DrainWhole drainLimit) e op

end Operation

namespace Editor

variable {D P : Editor → Prop} {e : Editor}

theorem along_true {α : Type} {p : Editor → α → Prop} (hp : ∀ e a, p e a)
    {f : Editor → α → Editor} (as : List α) (e : Editor) : Along p f as e := by
  induction as generalizing e with
  | nil => trivial
  | cons a as ih => exact ⟨hp e a, ih _⟩

/-- Without a condition on deliveries there is none on operations. -/
theorem drains_true (e : Editor) (op : Operation) : op.Drains (fun _ => True) e := by
  cases op with
  | update dt | frame dt => exact along_true (fun _ _ _ _ => trivial) _ _
  | removeNode id => exact fun _ _ => trivial
  | link a b | unlink edge => exact fun _ _ _ => trivial
  | reloadShader shader => exact fun _ _ => trivial
  | _ => trivial

/-- What the delivery of each event keeps, the delivery of all events keeps. -/
theorem drainWhole_delivers
    (hdeliver : ∀ {e : Editor} {event : Event} {events : List Event}, P e →
      e.graph.outbox = event :: events →
        P ((e.withGraph { e.graph with outbox := events }).deliver event))
    {limit : Nat} (h : P e) (hwhole : DrainWhole limit e) : P (drainUpTo limit e) := by
  induction limit generalizing e with
  | zero =>
      have hidle : ({ e.graph with outbox := [] } : Graph) = e.graph := by
        rw [← show e.graph.outbox = [] from hwhole]
      rw [drainUpTo, hidle]
      exact h
  | succ limit ih =>
      unfold drainUpTo
      split
      · exact h
      · next event g htaken =>
        obtain ⟨houtbox, hg⟩ := takeEvent_eq_some htaken
        have hnext := hdeliver h houtbox
        rw [← hg] at hnext
        exact ih hnext (hwhole event g htaken)

/-- Each event is told to the observers one after another; what holds of an event that is still to
be told to some of them holds in the end of one that all have been told of. -/
theorem drainWhole_keeps {R : Event → List Id → Editor → Prop}
    (htake : ∀ {e : Editor} {event : Event} {events : List Event}, P e →
      e.graph.outbox = event :: events →
        R event e.bus (e.withGraph { e.graph with outbox := events }))
    (htell : ∀ {e : Editor} {event : Event} {id : Id} {ids : List Id}, R event (id :: ids) e →
      R event ids (notify event e id))
    (hend : ∀ {e : Editor} {event : Event}, R event [] e → P e)
    {limit : Nat} (h : P e) (hwhole : DrainWhole limit e) : P (drainUpTo limit e) := by
  have hdeliver {event : Event} (ids : List Id) {e : Editor} (h : R event ids e) :
      R event [] (ids.foldl (notify event) e) := by
    induction ids generalizing e with
    | nil => exact h
    | cons id ids ih => exact ih (htell h)
  refine drainWhole_delivers (fun {e _ _} h houtbox => ?_) h hwhole
  exact hend (hdeliver e.bus (htake h houtbox))

/-- What each notification keeps, deliveries keep, whether all events are delivered or not. -/
theorem drain_keeps
    (houtbox : ∀ {e : Editor} (events : List Event), P e →
      P (e.withGraph { e.graph with outbox := events }))
    (hevent : ∀ {e : Editor} {n : UiNode} (event : Event), P e → n ∈ e.nodes →
      P (e.act n (·.onEvent event)))
    (h : P e) : P e.drain := by
  have hdeliver {event : Event} (ids : List Id) {e : Editor} (h : P e) :
      P (ids.foldl (notify event) e) := by
    induction ids generalizing e with
    | nil => exact h
    | cons id ids ih =>
        apply ih
        unfold notify
        split
        · next n hn => exact hevent event h (node?_eq_some hn).1
        · exact h
  have hdrain (limit : Nat) {e : Editor} (h : P e) : P (drainUpTo limit e) := by
    induction limit generalizing e with
    | zero => exact houtbox [] h
    | succ limit ih =>
        unfold drainUpTo
        split
        · exact h
        · next event g htake =>
          rw [(takeEvent_eq_some htake).2]
          exact ih (hdeliver _ (houtbox g.outbox h))
  exact hdrain drainLimit h

section Drained

variable (hdrain : ∀ {e : Editor}, P e → D e → P e.drain)

include hdrain

theorem removeNode_keeps {id : Id} (h : P e) (hd : (Operation.removeNode id).Drains D e)
    (hdismiss : ∀ n ∈ e.nodes, P (e.dismiss n (n.onDelete.on e.scene).2)) :
    P (e.removeNode id).2 := by
  unfold removeNode
  split
  · exact h
  · next n hn => exact hdrain (hdismiss n (node?_eq_some hn).1) (hd n hn)

theorem link_keeps {a b : Id} (h : P e) (hd : (Operation.link a b).Drains D e)
    (hlink : ∀ edge e', e.makeLink a b = .ok (edge, e') → P e') : P (e.link a b).2 := by
  unfold link
  split
  · next edge e' hmade => exact hdrain (hlink edge e' hmade) (hd edge e' hmade)
  · exact h

theorem unlink_keeps {edge : Id} (hc : e.graph.Consistent) (h : P e)
    (hd : (Operation.unlink edge).Drains D e)
    (hunlink : ∀ found g, e.graph.edge? edge = some found → found.kind = .external →
      e.graph.ErasesEdge found g → P (e.withGraph g)) : P (e.unlink edge).2 := by
  unfold unlink
  split
  · exact h
  · next found hfound =>
    split
    · exact h
    · next hext =>
      split
      · next g herase =>
        have hkind : found.kind = .external := by simpa [Edge.isExternal] using hext
        obtain ⟨g', hg', herases⟩ := hc.eraseEdge hfound
        rw [herase] at hg'
        cases hg'
        exact hdrain (hunlink found g hfound hkind herases) (hd _ g herase)
      · exact h

theorem reloadShader_keeps {shader : Int32} (h : P e)
    (hd : (Operation.reloadShader shader).Drains D e)
    (hreload : ∀ l, e.scene.services.shaders.reload shader = .ok l →
      P ((e.withServices { e.scene.services with shaders := l }).withGraph
        (e.graph.pushEvent (.shaderUpdated shader)))) :
    P (e.reloadShader shader).2 := by
  unfold reloadShader
  split
  · exact h
  · next l hl => exact hdrain (hreload l hl) (hd l hl)

theorem update_keeps {dt : Float32} (htick : P (e.tick dt))
    (hd : (Operation.update dt).Drains D e)
    (hturn : ∀ {e : Editor} {n : UiNode}, P e → n ∈ e.nodes → P (e.act n (·.onUpdate e.clock))) :
    P (e.update dt) := by
  have hfold (ids : List Id) {e : Editor} (h : P e) (hd : Along (OnTurn D) updateNode ids e) :
      P (ids.foldl updateNode e) := by
    induction ids generalizing e with
    | nil => exact h
    | cons id ids ih =>
        obtain ⟨hid, hrest⟩ := hd
        refine ih ?_ hrest
        unfold updateNode
        split
        · exact h
        · next n hn => exact hdrain (hturn h (node?_eq_some hn).1) (hid n hn)
  exact hfold _ htick hd

end Drained

end Editor

/-! ## Editors that are held together -/

namespace UiNode

theorem plays_unready {n : UiNode} {w : Wiring} : n.unready.Plays w ↔ n.Plays w := by
  cases n <;> exact Iff.rfl

@[simp] theorem offer_unready (n : UiNode) : n.unready.offer = n.offer := by cases n <;> rfl

@[simp] theorem observes_unready (n : UiNode) : n.unready.observes = n.observes := by
  cases n <;> rfl

end UiNode

/-- Whether render targets are ready is no part of a role. -/
theorem Casts.of_unready {w : Wiring} {ns ns' : List UiNode} (h : Casts w ns)
    (heq : ns'.map UiNode.unready = ns.map UiNode.unready) : Casts w ns' := by
  have hids : ns'.map UiNode.id = ns.map UiNode.id := by
    rw [← Editor.map_id_unready, heq, Editor.map_id_unready]
  refine ⟨hids ▸ h.nodup, ?_, ?_⟩
  · intro n hn
    have hmem : n.unready ∈ ns.map UiNode.unready := heq ▸ List.mem_map_of_mem hn
    obtain ⟨m, hm, hmn⟩ := List.mem_map.1 hmem
    rw [← UiNode.plays_unready, ← hmn, UiNode.plays_unready]
    exact h.plays m hm
  · intro id inputs outputs hr
    obtain ⟨m, hm, rfl⟩ := h.cast id inputs outputs hr
    have hmem : m.id ∈ ns'.map UiNode.id := hids ▸ List.mem_map_of_mem hm
    exact List.mem_map.1 hmem

theorem observers_of_unready {ns ns' : List UiNode}
    (heq : ns'.map UiNode.unready = ns.map UiNode.unready) :
    (ns'.filter UiNode.observes).map UiNode.id = (ns.filter UiNode.observes).map UiNode.id := by
  have hunready (ns : List UiNode) : (ns.filter UiNode.observes).map UiNode.id =
      ((ns.map UiNode.unready).filter UiNode.observes).map UiNode.id := by
    rw [List.filter_map, List.map_map]
    have hid : UiNode.id ∘ UiNode.unready = UiNode.id := funext UiNode.id_unready
    have hobserves : UiNode.observes ∘ UiNode.unready = UiNode.observes :=
      funext UiNode.observes_unready
    rw [hid, hobserves]
  rw [hunready, heq, ← hunready]

namespace Editor

variable {tight : Prop} {w : Wiring} {e : Editor} {n n' : UiNode}

/-- The graph, the UI nodes and the observers fit together, whatever boxes hold. -/
structure Held (tight : Prop) (w : Wiring) (e : Editor) : Prop where
  laid : Laid tight w e.graph
  casts : Casts w e.nodes
  bus : e.bus = (e.nodes.filter UiNode.observes).map UiNode.id

namespace Held

theorem clear (e : Editor) : e.clear.Held tight fun _ => none := ⟨.empty, .empty, rfl⟩

theorem new (services : Services) (settings : EvalSettings) :
    (Editor.new services settings).Held tight fun _ => none :=
  ⟨.empty, .empty, rfl⟩

variable (h : e.Held tight w)

include h

theorem consistent : e.graph.Consistent := h.laid.ordered.consistent

theorem owns_lt (hn : n ∈ e.nodes) {id : Id} (hid : id ∈ n.id :: n.pins) :
    id < e.graph.nextId := by
  obtain ⟨r, hr, _⟩ := (h.casts.plays n hn).home_eq hid
  exact h.consistent.node_lt id (h.laid.hasNode hr)

theorem distinct : e.Distinct :=
  .of_lt h.casts.nodup fun _ hn _ ho =>
    h.owns_lt hn (List.mem_cons_of_mem _ (List.mem_append_right _ ho))

theorem withOutbox (events : List Event) :
    (e.withGraph { e.graph with outbox := events }).Held tight w :=
  ⟨h.laid.withOutbox events, h.casts, h.bus⟩

theorem replace (hn : n ∈ e.nodes) {s : Scene} (ht : n.Turned tight w e.graph n' s) :
    ∃ w', (({ e with scene := s } : Editor).replace n').Held tight w' := by
  obtain ⟨w', hw', hplays, hrecast⟩ := ht.placed
  rw [← ht.id] at hplays hrecast
  have hmem : n'.id ∈ e.nodes.map UiNode.id := List.mem_map.2 ⟨n, hn, ht.id.symm⟩
  exact ⟨w', hw', h.casts.replace hmem hrecast hplays,
    bus_replace h.casts h.bus hn ht.id ht.observes⟩

theorem event (hn : n ∈ e.nodes) (event : Event) :
    ∃ w', (e.act n (·.onEvent event)).Held tight w' :=
  h.replace hn (UiNode.onEvent_turned h.laid (h.casts.plays n hn) event)

theorem update (hn : n ∈ e.nodes) (clock : Clock) :
    ∃ w', (e.act n (·.onUpdate clock)).Held tight w' :=
  h.replace hn (UiNode.onUpdate_turned h.laid (h.casts.plays n hn) clock)

theorem dismiss (hn : n ∈ e.nodes) :
    ∃ w', (e.dismiss n (n.onDelete.on e.scene).2).Held tight w' := by
  obtain ⟨s, w', hdelete, hw', hrecast, hgone⟩ :=
    UiNode.onDelete_laid h.laid (h.casts.plays n hn)
  rw [hdelete]
  exact ⟨w', hw', h.casts.remove hrecast hgone, bus_dismiss h.casts h.bus hn s⟩

theorem addNode (hidle : e.graph.outbox = []) (kind : UiNodeKind) :
    ∃ w', (e.addNode kind).2.Held tight w' := by
  have hcreate := UiNode.create_tries h.laid kind
  apply addNode_keeps (P := fun e => ∃ w', e.Held tight w') hidle
  · intro err s hx
    exact ⟨w, hcreate.of_error hx, h.casts, h.bus⟩
  · intro n s hx
    obtain ⟨hnew, w', hw', hplays, hrecast⟩ := hcreate.of_ok hx
    exact ⟨w', hw', h.casts.add hrecast hnew hplays, bus_enroll h.casts h.bus hnew s⟩

/-- The owner of a node is the UI node whose role it plays. -/
theorem role_of_ownerOf {id owner : Id} (ho : e.ownerOf id = some owner) :
    ∃ r, w id = some r ∧ r.home id = owner := by
  unfold ownerOf at ho
  split at ho
  · next hany =>
    obtain ⟨n, hn, hid⟩ := List.any_eq_true.1 hany
    obtain rfl : n.id = id := by simpa using hid
    exact ⟨_, (h.casts.plays n hn).identity, Option.some.inj ho⟩
  · obtain ⟨n, hfind, rfl⟩ := Option.map_eq_some_iff.1 ho
    have hmem : id ∈ n.pins := by simpa using List.find?_some hfind
    exact (h.casts.plays n (List.mem_of_find?_eq_some hfind)).home_eq (List.mem_cons_of_mem _ hmem)

theorem makeLink {a b edge : Id} {e' : Editor} (hmade : e.makeLink a b = .ok (edge, e')) :
    e'.Held tight w := by
  obtain ⟨input, output, g, horient, hcheck, hadd, rfl⟩ := makeLink_eq_ok hmade
  obtain ⟨⟨m, hm, hmdir⟩, n, hn, hndir⟩ := orient_eq_ok horient
  obtain ⟨⟨p, q, hp, hq, _⟩, _, hdegree, _⟩ := checkLink_eq_ok hcheck
  obtain ⟨r, hr, _⟩ := h.role_of_ownerOf hp
  obtain ⟨r', hr', _⟩ := h.role_of_ownerOf hq
  obtain ⟨owner, kind, rfl⟩ : ∃ owner kind, r = .input owner kind := by
    obtain ⟨m', hm', hdescribes⟩ := (h.laid.lies input r hr).node
    obtain rfl := Option.some.inj (hm.symm.trans hm')
    cases r with
    | identity inputs outputs => simp [Role.Describes, hmdir] at hdescribes
    | input owner kind => exact ⟨owner, kind, rfl⟩
    | output owner offer => simp [Role.Describes, hmdir] at hdescribes
  obtain ⟨_, _, hedge⟩ := h.consistent.addEdge hadd
  have hnil := h.consistent.outDegree_eq_zero_iff.1 hdegree
  exact ⟨h.laid.link hr hn hndir (fun _ => by rw [hr']; rfl) hnil hedge, h.casts, h.bus⟩

theorem unlink {k : Id} {found : Edge} {g : Graph} (hk : e.graph.edge? k = some found)
    (hx : found.kind = .external) (he : e.graph.ErasesEdge found g) :
    (e.withGraph g).Held tight w :=
  ⟨h.laid.unlink hk hx he, h.casts, h.bus⟩

theorem setPin (pin : Id) (v : Value) : ∃ w', (e.setPin pin v).2.Held tight w' :=
  setPin_keeps (P := fun e => ∃ w', e.Held tight w') ⟨w, h⟩ fun u _ =>
    ⟨w, h.laid.write pin u, h.casts, h.bus⟩

/-- What is set on a UI node and written into boxes changes no role. -/
theorem set (hn : n ∈ e.nodes) {s : Scene} (hplays : n.Plays w → n'.Plays w) (hid : n'.id = n.id)
    (hobserves : n'.observes = n.observes) (hs : s.graph = e.graph) (out : Id) (v : Value) :
    ∃ w', (({ e with scene := s.write out v } : Editor).replace n').Held tight w' := by
  have hlaid : Laid tight w s.graph := hs ▸ h.laid
  refine h.replace hn (.of_laid (hlaid.write out v) (hplays (h.casts.plays n hn)) hid hobserves ?_)
  rw [Scene.nextId_write, hs]
  exact UInt32.le_refl _

theorem setAsset (hidle : e.graph.outbox = []) (id : Id) (path : Option String) :
    ∃ w', (e.setAsset id path).2.Held tight w' := by
  apply setAsset_keeps (P := fun e => ∃ w', e.Held tight w') hidle ⟨w, h⟩
  intro kind id output old index s hn hs
  obtain rfl : (e.scene.resolveAsset kind path).2 = s := congrArg Prod.snd hs
  have hplays : (UiNode.asset kind id output old).Plays w →
      (UiNode.asset kind id output path).Plays w := fun hp => hp
  exact h.set hn hplays rfl rfl (Scene.graph_resolveAsset e.scene kind path).1 _ _

theorem setShape (hidle : e.graph.outbox = []) (id : Id) (shape : PrimitiveShape) :
    ∃ w', (e.setShape id shape).2.Held tight w' := by
  apply setShape_keeps (P := fun e => ∃ w', e.Held tight w') hidle ⟨w, h⟩
  intro id output old index s hn hs
  obtain rfl : (e.scene.resolvePrimitive shape).2 = s := congrArg Prod.snd hs
  have hplays : (UiNode.primitive id output old).Plays w →
      (UiNode.primitive id output shape).Plays w := fun hp => hp
  exact h.set hn hplays rfl rfl (Scene.graph_resolvePrimitive e.scene shape).1 _ _

theorem setColor (hidle : e.graph.outbox = []) (id : Id) (color : Vec3) :
    ∃ w', (e.setColor id color).2.Held tight w' :=
  setColor_keeps (P := fun e => ∃ w', e.Held tight w') hidle ⟨w, h⟩ fun d hd =>
    have hplays : (UiNode.draw { d with color }).Plays w := h.casts.plays (.draw d) hd
    h.replace hd (.of_laid h.laid hplays rfl rfl (UInt32.le_refl _))

theorem setLens (hidle : e.graph.outbox = []) (id : Id) (fov aspect near far : Float32) :
    ∃ w', (e.setLens id fov aspect near far).2.Held tight w' :=
  setLens_keeps (P := fun e => ∃ w', e.Held tight w') hidle ⟨w, h⟩ fun c hc =>
    have hplays : (UiNode.camera { c with fov, aspect, near, far }).Plays w :=
      h.casts.plays (.camera c) hc
    h.replace hc (.of_laid h.laid hplays rfl rfl (UInt32.le_refl _))

theorem of_evaluated {e' : Editor} (he : Evaluated e e') : e'.Held tight w :=
  ⟨he.graph ▸ h.laid, h.casts.of_unready he.nodes,
    he.bus.trans (h.bus.trans (observers_of_unready he.nodes).symm)⟩

theorem evaluate : e.evaluate.2.Held tight w := h.of_evaluated h.distinct.evaluated

omit h

theorem drain (h : ∃ w, e.Held tight w) : ∃ w, e.drain.Held tight w :=
  drain_keeps (P := fun e => ∃ w, e.Held tight w) (fun events ⟨w, h⟩ => ⟨w, h.withOutbox events⟩)
    (fun event ⟨_, h⟩ hn => h.event hn event) h

/-- Every operation keeps an editor together. -/
theorem apply (h : ∃ w, e.Held tight w) (hidle : e.graph.outbox = []) (op : Operation) :
    ∃ w, (op.apply e).Held tight w := by
  have ⟨w, hw⟩ := h
  have hd := drains_true e op
  have hupdate (dt : Float32) : ∃ w, (e.update dt).Held tight w := by
    refine update_keeps (P := fun e => ∃ w, e.Held tight w) (fun h _ => drain h)
      ⟨w, hw.laid, hw.casts, hw.bus⟩ (drains_true e (.update dt)) ?_
    rintro e n ⟨w, h⟩ hn
    exact h.update hn e.clock
  cases op with
  | addNode kind => exact hw.addNode hidle kind
  | removeNode id =>
      exact removeNode_keeps (P := fun e => ∃ w, e.Held tight w) (fun h _ => drain h) h
        hd fun n hn => hw.dismiss hn
  | link a b =>
      exact link_keeps (P := fun e => ∃ w, e.Held tight w) (fun h _ => drain h) h hd
        fun edge e' hmade => ⟨w, hw.makeLink hmade⟩
  | unlink edge =>
      exact unlink_keeps (P := fun e => ∃ w, e.Held tight w) (fun h _ => drain h)
        hw.consistent h hd fun found g hfound hx he => ⟨w, hw.unlink hfound hx he⟩
  | setRoot root =>
      exact setRoot_keeps (P := fun e => ∃ w, e.Held tight w) h fun _ =>
        ⟨w, hw.laid, hw.casts, hw.bus⟩
  | setPin pin v => exact hw.setPin pin v
  | setAsset id path => exact hw.setAsset hidle id path
  | setShape id shape => exact hw.setShape hidle id shape
  | setColor id color => exact hw.setColor hidle id color
  | setLens id fov aspect near far => exact hw.setLens hidle id fov aspect near far
  | reloadShader shader =>
      exact reloadShader_keeps (P := fun e => ∃ w, e.Held tight w) (fun h _ => drain h)
        h hd fun l _ => ⟨w, hw.laid.withOutbox _, hw.casts, hw.bus⟩
  | update dt => exact hupdate dt
  | evaluate => exact ⟨w, hw.evaluate⟩
  | frame dt =>
      obtain ⟨w', hw'⟩ := hupdate dt
      exact ⟨w', hw'.evaluate⟩
  | serve services => exact ⟨w, hw.laid, hw.casts, hw.bus⟩
  | clear => exact ⟨_, clear e⟩

end Held

/-- The editors that operations lead to from a new one, also where ids run out. -/
inductive Ran : Editor → Prop
  | new (services : Services) (settings : EvalSettings) : Ran (.new services settings)
  | step {e : Editor} (h : Ran e) (op : Operation) : Ran (op.apply e)

theorem Ran.foldl (h : Ran e) (ops : List Operation) : Ran (ops.foldl Operation.apply e) := by
  induction ops generalizing e with
  | nil => exact h
  | cons op ops ih => exact ih (h.step op)

theorem Reached.ran (h : Reached e) : Ran e := by
  induction h with
  | new services settings => exact .new services settings
  | step _ op _ ih => exact .step ih op

theorem Ran.outbox (h : Ran e) : e.graph.outbox = [] := by
  induction h with
  | new services settings => rfl
  | step _ op ih => exact outbox_apply ih op

theorem Ran.held (h : Ran e) : ∃ w, e.Held True w := by
  induction h with
  | new services settings => exact ⟨_, .new services settings⟩
  | step h op ih => exact Held.apply ih h.outbox op

end Editor

end DrawGraph
