import DrawGraph.Proofs.Editor.Reflection
import DrawGraph.Proofs.Editor.Upkeep
import DrawGraph.Proofs.UiNode.Base

/-!
# Draw nodes whose shader pin is not linked

As long as no event is dropped, a draw node hears of the end of every link to its shader pin, and
takes its base form. So between operations every draw node is linked or in that form. Those that
loading bound to a shader without a link are left out of account.
-/

namespace DrawGraph

open Wiring

/-- Links leave inputs, and nothing else does. -/
theorem Laid.fed_iff {tight : Prop} {w : Wiring} {g : Graph} (h : Laid tight w g) {pin owner : Id}
    {kind : ValueKind} (hpin : w pin = some (.input owner kind)) :
    g.Fed pin ↔ g.neighbors pin ≠ [] := by
  have hc := h.ordered.consistent
  constructor
  · rintro ⟨i, e, he, rfl, _⟩ hnil
    have hmem : e.target ∈ g.neighbors e.source :=
      hc.mem_neighbors.2 ⟨e, Graph.mem_edgesFrom.2 ⟨⟨i, he⟩, rfl⟩, rfl⟩
    rw [hnil] at hmem
    cases hmem
  · intro hne
    obtain ⟨t, ht⟩ := List.exists_mem_of_ne_nil _ hne
    obtain ⟨e, he, _⟩ := hc.mem_neighbors.1 ht
    obtain ⟨⟨i, hi⟩, hs⟩ := Graph.mem_edgesFrom.1 he
    refine ⟨i, e, hi, hs, (h.kind i e _ hi (hs.symm ▸ hpin)).2 ⟨owner, kind, rfl⟩⟩

theorem Scene.neighbors_ne_nil_of_source? {s : Scene} {pin : Id} (h : (s.source? pin).isSome) :
    s.graph.neighbors pin ≠ [] := by
  intro hnil
  unfold Scene.source? at h
  split at h
  · cases h
  · rw [hnil] at h
    cases h

namespace Editor

variable {strict : Prop} {rash : List Id} {e : Editor} {n n' : UiNode} {d : Draw}

/-- Every draw node is tended, but those in `rash`. -/
structure Based (strict : Prop) (rash : List Id) (e : Editor) : Prop where
  held : ∃ w, e.Held False w
  tended : ∀ d, .draw d ∈ e.nodes → d.id ∉ rash → d.Tended strict e.graph e.graph.outbox

namespace Based

theorem clear (e : Editor) : e.clear.Based strict rash := ⟨⟨_, .clear e⟩, fun _ h => by cases h⟩

theorem new (services : Services) (settings : EvalSettings) :
    (Editor.new services settings).Based strict rash :=
  ⟨⟨_, .new services settings⟩, fun _ h => by cases h⟩

theorem consistent (h : e.Based strict rash) : e.graph.Consistent := by
  obtain ⟨w, hw⟩ := h.held
  exact hw.consistent

/-- An unlinked draw node is in its base form when no event waits. -/
theorem isBase (h : e.Based strict rash) (hidle : e.graph.outbox = []) (hd : .draw d ∈ e.nodes)
    (hrash : d.id ∉ rash) (hnil : e.graph.neighbors d.shader = []) : d.IsBase strict := by
  obtain ⟨w, hw⟩ := h.held
  have hshader : w d.shader = some (.input d.id .int) :=
    Wiring.Seats.input (hw.casts.plays _ hd) (d.shader, .int) List.mem_cons_self
  rcases (h.tended d hd hrash).base with hfed | ⟨t, ht⟩ | hbase
  · exact absurd hnil ((hw.laid.fed_iff hshader).1 hfed)
  · rw [hidle] at ht
    cases ht
  · exact hbase

/-- A UI node is put back, and no link went unheard. -/
theorem replace (h : e.Based strict rash) {s : Scene}
    (hheld : ∃ w, (({ e with scene := s } : Editor).replace n').Held False w)
    {added : List Event} (hs : e.graph.Sheds s.graph added)
    (hn' : ∀ d, n' = .draw d → d.id ∉ rash → d.Tended strict s.graph s.graph.outbox) :
    (({ e with scene := s } : Editor).replace n').Based strict rash := by
  refine ⟨hheld, fun d hd hrash => ?_⟩
  rcases mem_replace hd with heq | ⟨hd, _⟩
  · exact hn' d heq.symm hrash
  · exact (h.tended d hd hrash).sheds_outbox hs

/-! ### Deliveries -/

/-- An event is being told of, and `ids` are still to hear of it. -/
structure Telling (strict : Prop) (rash : List Id) (event : Event) (ids : List Id) (e : Editor) : Prop where
  held : ∃ w, e.Held False w
  nodup : ids.Nodup
  tended : ∀ d, .draw d ∈ e.nodes → d.id ∉ rash →
    d.Tended strict e.graph (if d.id ∈ ids then event :: e.graph.outbox else e.graph.outbox)

theorem take (h : e.Based strict rash) {event : Event} {events : List Event}
    (hout : e.graph.outbox = event :: events) :
    Telling strict rash event e.bus (e.withGraph { e.graph with outbox := events }) := by
  obtain ⟨w, hw⟩ := h.held
  refine ⟨⟨w, hw.withOutbox events⟩, ?_, fun d hd hrash => ?_⟩
  · rw [hw.bus]
    exact hw.casts.nodup.sublist (List.filter_sublist.map _)
  · -- every draw node is an observer
    have hmem : d.id ∈ e.bus := by
      rw [hw.bus]
      exact List.mem_map.2 ⟨.draw d, List.mem_filter.2 ⟨hd, rfl⟩, rfl⟩
    rw [if_pos hmem]
    have htended := h.tended d hd hrash
    rw [hout] at htended
    exact ⟨htended.base, htended.created⟩

theorem Telling.tell {event : Event} {id : Id} {ids : List Id}
    (h : Telling strict rash event (id :: ids) e) : Telling strict rash event ids (notify event e id) := by
  obtain ⟨hid, hnodup⟩ := List.nodup_cons.1 h.nodup
  have hmem_iff {d : Draw} (hne : d.id ≠ id) : d.id ∈ id :: ids ↔ d.id ∈ ids := by simp [hne]
  unfold notify
  split
  · next n hn =>
    obtain ⟨hmem, hnid⟩ := node?_eq_some hn
    obtain ⟨w, hw⟩ := h.held
    obtain ⟨added, hsheds⟩ := (n.moves_onEvent event e.scene).sheds hw.consistent
    refine ⟨hw.event hmem event, hnodup, fun d hd hrash => ?_⟩
    rcases mem_act hd with heq | ⟨hd, hne⟩
    · obtain ⟨d₀, rfl, rfl⟩ := UiNode.eq_draw_of_onEvent heq.symm
      have hd₀ : (d₀.onEvent e.scene event).1.id = d₀.id := UiNode.id_onEvent (.draw d₀) event _
      have hid₀ : d₀.id = id := hnid
      rw [hd₀, hid₀] at hrash
      have htended := h.tended d₀ hmem (hid₀ ▸ hrash)
      rw [hid₀, if_pos List.mem_cons_self] at htended
      rw [hd₀, hid₀, if_neg hid]
      exact htended.onEvent hw.consistent
    · rw [n.id_onEvent, hnid] at hne
      have htended := (h.tended d hd hrash).sheds hsheds
      rw [if_congr (hmem_iff hne) rfl rfl] at htended
      change d.Tended strict (n.onEvent event e.scene).2.graph _
      rw [show (e.act n (·.onEvent event)).graph.outbox = e.graph.outbox ++ added from
        hsheds.outbox]
      split at htended
      · next hid => rw [if_pos hid]; exact htended
      · next hid => rw [if_neg hid]; simpa using htended
  · next hnone =>
    refine ⟨h.held, hnodup, fun d hd hrash => ?_⟩
    have hne : d.id ≠ id := by
      intro heq
      have hfind : (e.node? id).isSome := List.find?_isSome.2 ⟨_, hd, beq_iff_eq.2 heq⟩
      rw [hnone] at hfind
      cases hfind
    have htended := h.tended d hd hrash
    rwa [if_congr (hmem_iff hne) rfl rfl] at htended

theorem drain (h : e.Based strict rash) (hwhole : DrainWhole drainLimit e) : e.drain.Based strict rash := by
  refine drainWhole_keeps (R := Telling strict rash) (fun h => h.take) (fun h => h.tell) ?_ h hwhole
  intro e event h
  exact ⟨h.held, fun d hd hrash => by simpa using h.tended d hd hrash⟩

/-! ### Operations -/

theorem onUpdate (h : e.Based strict rash) (hn : n ∈ e.nodes) :
    (e.act n (·.onUpdate e.clock)).Based strict rash := by
  obtain ⟨w, hw⟩ := h.held
  obtain ⟨added, hsheds⟩ := (n.moves_onUpdate e.clock e.scene).sheds hw.consistent
  refine h.replace (hw.update hn e.clock) hsheds fun d hd hrash => ?_
  obtain ⟨d₀, rfl⟩ := UiNode.eq_draw_of_onUpdate hd
  have hd₀ : d.id = d₀.id :=
    (congrArg UiNode.id hd).symm.trans (UiNode.id_onUpdate (.draw d₀) e.clock e.scene)
  have htended := h.tended d₀ hn (hd₀ ▸ hrash)
  have hpulled : Scene.Moves (fun _ => False) (fun _ => True) e.scene
      ((UiNode.draw d₀).inputs.foldl Scene.pull e.scene) :=
    Scene.moves_foldl_pull _ fun _ _ => trivial
  obtain ⟨added', hsheds'⟩ := hpulled.sheds hw.consistent
  have htended' := htended.sheds_outbox hsheds'
  have hlaid := hw.laid.foldl_pull (UiNode.draw d₀).inputs
  have hshader : w d₀.shader = some (.input d₀.id .int) :=
    Wiring.Seats.input (hw.casts.plays _ hn) (d₀.shader, .int) List.mem_cons_self
  replace hd : ((UiNode.draw d₀).onUpdate e.clock e.scene).1 = .draw d := hd
  change d.Tended strict ((UiNode.draw d₀).onUpdate e.clock e.scene).2.graph
    ((UiNode.draw d₀).onUpdate e.clock e.scene).2.graph.outbox
  generalize hres : (UiNode.draw d₀).onUpdate e.clock e.scene = result at hd ⊢
  obtain ⟨n', s'⟩ := result
  obtain rfl : n' = .draw d := hd
  unfold UiNode.onUpdate at hres
  dsimp only at hres
  split at hres
  · cases hres
    exact htended'
  · next hlinked =>
    split at hres
    · cases hres
      exact htended'
    · cases hres
      rw [Bool.not_eq_true, Option.isNone_eq_false_iff] at hlinked
      have hfed := (hlaid.fed_iff hshader).2 (Scene.neighbors_ne_nil_of_source? hlinked)
      exact htended'.sync hlaid.ordered.consistent (Or.inl hfed) _

theorem addNode (h : e.Based strict rash) (hidle : e.graph.outbox = []) (kind : UiNodeKind) :
    (e.addNode kind).2.Based strict rash := by
  obtain ⟨w, hw⟩ := h.held
  have hmoves : Scene.Moves (fun _ => True) (fun _ => False) e.scene
      ((UiNode.create kind).on e.scene).2 := UiNode.moves_create kind e.scene
  have hquiet : ((UiNode.create kind).on e.scene).2.graph.outbox = e.graph.outbox :=
    UiNode.preserves_create kind e.scene
  obtain ⟨added, hsheds⟩ := hmoves.sheds hw.consistent
  refine ⟨hw.addNode hidle kind, ?_⟩
  apply addNode_keeps (P := fun e => ∀ d, .draw d ∈ e.nodes → d.id ∉ rash →
    d.Tended strict e.graph e.graph.outbox) hidle
  · intro err s hx d hd hrash
    rw [hx] at hsheds
    exact (h.tended d hd hrash).sheds_outbox hsheds
  · intro n s hx d hd hrash
    rw [hx] at hsheds hquiet
    rcases List.mem_append.1 hd with hd | hd
    · exact (h.tended d hd hrash).sheds_outbox hsheds
    · obtain ⟨hbindings, hbound⟩ := UiNode.returns_create kind e.scene n s hx d
        (List.mem_singleton.1 hd).symm
      have hbase : d.IsBase strict := Draw.isBase_of_unbound hbindings hbound
      change d.Tended strict s.graph s.graph.outbox
      rw [hquiet.trans hidle]
      exact hbase.tended s.graph

theorem dismiss (h : e.Based strict rash) (hn : n ∈ e.nodes) :
    (e.dismiss n (n.onDelete.on e.scene).2).Based strict rash := by
  obtain ⟨w, hw⟩ := h.held
  have hmoves : Scene.Moves (· = n.id) n.Owns e.scene (n.onDelete.on e.scene).2 :=
    n.moves_onDelete e.scene
  obtain ⟨added, hsheds⟩ := hmoves.sheds hw.consistent
  exact ⟨hw.dismiss hn, fun d hd hrash =>
    (h.tended d (List.mem_of_mem_filter hd) hrash).sheds_outbox hsheds⟩

theorem makeLink (h : e.Based strict rash) {a b edge : Id} {e' : Editor}
    (hmade : e.makeLink a b = .ok (edge, e')) : e'.Based strict rash := by
  obtain ⟨w, hw⟩ := h.held
  refine ⟨⟨w, hw.makeLink hmade⟩, ?_⟩
  obtain ⟨input, output, g, _, _, hadd, rfl⟩ := makeLink_eq_ok hmade
  obtain ⟨_, _, he⟩ := hw.consistent.addEdge hadd
  intro d hd hrash
  change d.Tended strict g g.outbox
  rw [he.outbox]
  refine (h.tended d hd hrash).append ?_ fun t ht => ?_
  · rintro ⟨i, f, hf, hs, hx⟩
    exact Or.inl ⟨i, f, he.edge?_of_some hf, hs, hx⟩
  · obtain ⟨rfl, rfl⟩ : d.shader = input ∧ t = output := by simpa using ht
    exact ⟨edge, _, by rw [he.edge?, if_pos rfl], rfl, rfl⟩

theorem unlink (h : e.Based strict rash) {k : Id} {found : Edge} {g : Graph}
    (hk : e.graph.edge? k = some found) (hx : found.kind = .external)
    (he : e.graph.ErasesEdge found g) : (e.withGraph g).Based strict rash := by
  obtain ⟨w, hw⟩ := h.held
  exact ⟨⟨w, hw.unlink hk hx he⟩, fun d hd hrash =>
    (h.tended d hd hrash).sheds_outbox (he.sheds hw.consistent hk)⟩

theorem reload (h : e.Based strict rash) (l : ShaderLibrary) (shader : Int32) :
    ((e.withServices { e.scene.services with shaders := l }).withGraph
      (e.graph.pushEvent (.shaderUpdated shader))).Based strict rash := by
  obtain ⟨w, hw⟩ := h.held
  exact ⟨⟨w, hw.laid.withOutbox _, hw.casts, hw.bus⟩, fun d hd hrash =>
    (h.tended d hd hrash).append Or.inl (by simp)⟩

theorem sheds_write (s : Scene) (pin : Id) (v : Value) :
    s.graph.Sheds (s.write pin v).graph [] :=
  .of_edges (Scene.outbox_write ..) fun i _ he => (Scene.edge?_write s pin v i).trans he

theorem setPin (h : e.Based strict rash) (pin : Id) (v : Value) : (e.setPin pin v).2.Based strict rash := by
  obtain ⟨w, hw⟩ := h.held
  refine ⟨hw.setPin pin v, setPin_keeps (P := fun e => ∀ d, .draw d ∈ e.nodes → d.id ∉ rash →
    d.Tended strict e.graph e.graph.outbox) h.tended fun u _ d hd hrash => ?_⟩
  exact (h.tended d hd hrash).sheds_outbox (sheds_write e.scene pin u)

theorem setAsset (h : e.Based strict rash) (hidle : e.graph.outbox = []) (id : Id)
    (path : Option String) : (e.setAsset id path).2.Based strict rash := by
  obtain ⟨w, hw⟩ := h.held
  refine ⟨hw.setAsset hidle id path, setAsset_keeps (P := fun e => ∀ d, .draw d ∈ e.nodes →
    d.id ∉ rash → d.Tended strict e.graph e.graph.outbox) hidle h.tended ?_⟩
  intro kind id output old index s _ hs d hd hrash
  obtain rfl : (e.scene.resolveAsset kind path).2 = s := congrArg Prod.snd hs
  rcases mem_replace hd with heq | ⟨hd, _⟩
  · cases heq
  · have hsheds := sheds_write (e.scene.resolveAsset kind path).2 output (.int index)
    rw [(Scene.graph_resolveAsset e.scene kind path).1] at hsheds
    exact (h.tended d hd hrash).sheds_outbox hsheds

theorem setShape (h : e.Based strict rash) (hidle : e.graph.outbox = []) (id : Id)
    (shape : PrimitiveShape) : (e.setShape id shape).2.Based strict rash := by
  obtain ⟨w, hw⟩ := h.held
  refine ⟨hw.setShape hidle id shape, setShape_keeps (P := fun e => ∀ d, .draw d ∈ e.nodes →
    d.id ∉ rash → d.Tended strict e.graph e.graph.outbox) hidle h.tended ?_⟩
  intro id output old index s _ hs d hd hrash
  obtain rfl : (e.scene.resolvePrimitive shape).2 = s := congrArg Prod.snd hs
  rcases mem_replace hd with heq | ⟨hd, _⟩
  · cases heq
  · have hsheds := sheds_write (e.scene.resolvePrimitive shape).2 output (.int index)
    rw [(Scene.graph_resolvePrimitive e.scene shape).1] at hsheds
    exact (h.tended d hd hrash).sheds_outbox hsheds

theorem setColor (h : e.Based strict rash) (hidle : e.graph.outbox = []) (id : Id) (color : Vec3) :
    (e.setColor id color).2.Based strict rash := by
  obtain ⟨w, hw⟩ := h.held
  refine ⟨hw.setColor hidle id color, setColor_keeps (P := fun e => ∀ d, .draw d ∈ e.nodes →
    d.id ∉ rash → d.Tended strict e.graph e.graph.outbox) hidle h.tended ?_⟩
  intro d₀ hd₀ d hd hrash
  rcases mem_replace hd with heq | ⟨hd, _⟩
  · cases heq
    have htended := h.tended d₀ hd₀ hrash
    exact ⟨htended.base, htended.created⟩
  · exact h.tended d hd hrash

theorem setLens (h : e.Based strict rash) (hidle : e.graph.outbox = []) (id : Id)
    (fov aspect near far : Float32) : (e.setLens id fov aspect near far).2.Based strict rash := by
  obtain ⟨w, hw⟩ := h.held
  refine ⟨hw.setLens hidle id fov aspect near far, setLens_keeps (P := fun e => ∀ d,
    .draw d ∈ e.nodes → d.id ∉ rash → d.Tended strict e.graph e.graph.outbox) hidle h.tended ?_⟩
  intro c _ d hd hrash
  rcases mem_replace hd with heq | ⟨hd, _⟩
  · cases heq
  · exact h.tended d hd hrash

theorem evaluate (h : e.Based strict rash) : e.evaluate.2.Based strict rash := by
  obtain ⟨w, hw⟩ := h.held
  have he := hw.distinct.evaluated
  refine ⟨⟨w, hw.evaluate⟩, fun d hd hrash => ?_⟩
  rw [he.graph]
  have hmem : UiNode.draw d ∈ e.nodes.map UiNode.unready := by
    rw [← he.nodes]
    exact List.mem_map.2 ⟨_, hd, rfl⟩
  obtain ⟨n, hn, hunready⟩ := List.mem_map.1 hmem
  rw [UiNode.unready_eq_draw] at hunready
  subst hunready
  exact h.tended d hn hrash

/-- Operations that drop no event leave no draw node behind its links. -/
theorem apply (h : e.Based strict rash) (hidle : e.graph.outbox = []) {op : Operation}
    (hwhole : op.Whole e) : (op.apply e).Based strict rash := by
  have hdrain {e : Editor} (h : e.Based strict rash) (hd : DrainWhole drainLimit e) :
      e.drain.Based strict rash := h.drain hd
  obtain ⟨w, hw⟩ := h.held
  have hupdate (dt : Float32) (hd : (Operation.update dt).Whole e) : (e.update dt).Based strict rash :=
    update_keeps (P := fun e => e.Based strict rash) hdrain
      ⟨⟨w, hw.laid, hw.casts, hw.bus⟩, h.tended⟩ hd fun h hn => h.onUpdate hn
  cases op with
  | addNode kind => exact h.addNode hidle kind
  | removeNode id =>
      exact removeNode_keeps (P := fun e => e.Based strict rash) hdrain h hwhole fun n hn => h.dismiss hn
  | link a b =>
      exact link_keeps (P := fun e => e.Based strict rash) hdrain h hwhole
        fun edge e' hmade => h.makeLink hmade
  | unlink edge =>
      exact unlink_keeps (P := fun e => e.Based strict rash) hdrain h.consistent h hwhole
        fun found g hfound hx he => h.unlink hfound hx he
  | setRoot root =>
      exact setRoot_keeps (P := fun e => e.Based strict rash) h
        fun _ => ⟨⟨w, hw.laid, hw.casts, hw.bus⟩, h.tended⟩
  | setPin pin v => exact h.setPin pin v
  | setAsset id path => exact h.setAsset hidle id path
  | setShape id shape => exact h.setShape hidle id shape
  | setColor id color => exact h.setColor hidle id color
  | setLens id fov aspect near far => exact h.setLens hidle id fov aspect near far
  | reloadShader shader =>
      exact reloadShader_keeps (P := fun e => e.Based strict rash) hdrain h hwhole
        fun l _ => h.reload l shader
  | update dt => exact hupdate dt hwhole
  | evaluate => exact h.evaluate
  | frame dt => exact (hupdate dt hwhole).evaluate
  | serve services => exact ⟨⟨w, hw.laid, hw.casts, hw.bus⟩, h.tended⟩
  | clear => exact clear e

end Based

end Editor

end DrawGraph
