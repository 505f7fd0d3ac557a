import DrawGraph.Proofs.Document.Rewriting
import DrawGraph.Proofs.Editor.Resuming
import DrawGraph.Proofs.UiNode.Growth

/-!
# Editors that load any text

An editor may load whatever text, and then its UI nodes may share pins or list one twice. Still each
UI node keeps its identity, pins are never taken for identities, and no node goes but a pin or the
identity of a UI node that is removed.
-/

namespace DrawGraph

/-- What an editor can be asked for: an operation, or to load a text. -/
inductive Request
  | operate (op : Operation)
  | load (text : String)

def Request.apply (e : Editor) : Request → Editor
  | operate op => op.apply e
  | load text => (e.load text).2

namespace Editor

open DrawGraph.Graph

/-- The identities of UI nodes are live nodes, each of one UI node, and their pins, as far as they
are still there, face somewhere. -/
structure Rooted (e : Editor) : Prop where
  consistent : e.graph.Consistent
  nodup : (e.nodes.map UiNode.id).Nodup
  identity : ∀ n ∈ e.nodes, e.graph.facing n.id = some .none
  pin : ∀ n ∈ e.nodes, ∀ p ∈ n.pins,
    p < e.graph.nextId ∧ ∀ d, e.graph.facing p = some d → d.isPin

/-- Of what there was in the editor `e₀` only pins are gone, and identities in `gone`; pins that are
listed now were listed then or are new; and the root is none that is gone with its UI node. -/
structure Outlives (gone : Id → Prop) (e₀ e : Editor) : Prop where
  rooted : e.Rooted
  nextId : e₀.graph.nextId ≤ e.graph.nextId
  pins : ∀ n ∈ e.nodes, ∀ p ∈ n.pins, p < e₀.graph.nextId → ∃ m ∈ e₀.nodes, p ∈ m.pins
  stays : ∀ j < e₀.graph.nextId, e₀.graph.hasNode j → (∀ m ∈ e₀.nodes, j ∉ m.pins) → ¬ gone j →
    e.graph.hasNode j
  root : ∀ r, e.root = some r → e₀.root = some r ∧ ¬ gone r

variable {gone : Id → Prop} {e₀ e e' : Editor} {n n' : UiNode} {s : Scene}

theorem Rooted.hasNode_id (h : e.Rooted) (hn : n ∈ e.nodes) : e.graph.hasNode n.id :=
  hasNode_of_facing (h.identity n hn)

theorem Rooted.id_lt (h : e.Rooted) (hn : n ∈ e.nodes) : n.id < e.graph.nextId :=
  h.consistent.node_lt _ (h.hasNode_id hn)

theorem Rooted.id_ne_pin (h : e.Rooted) {m : UiNode} (hn : n ∈ e.nodes) (hm : m ∈ e.nodes) :
    n.id ∉ m.pins := by
  intro hmem
  have hpin := (h.pin m hm n.id hmem).2 .none (h.identity n hn)
  cases hpin

theorem Rooted.identity_alters (h : e.Rooted) {mine : Id → Prop} {g : Graph}
    (ha : e.graph.Alters mine g) (hn : n ∈ e.nodes) (hnot : ¬ mine n.id) :
    g.facing n.id = some .none :=
  (ha.facing_eq (h.id_lt hn) hnot).trans (h.identity n hn)

theorem Rooted.pin_alters (h : e.Rooted) {mine : Id → Prop} {g : Graph}
    (ha : e.graph.Alters mine g) (hn : n ∈ e.nodes) {p : Id} (hp : p ∈ n.pins) :
    p < g.nextId ∧ ∀ d, g.facing p = some d → d.isPin := by
  obtain ⟨hlt, hdir⟩ := h.pin n hn p hp
  exact ⟨UInt32.lt_of_lt_of_le hlt ha.nextId, fun d hd => hdir d (ha.facing_eq_some hlt hd)⟩

theorem Rooted.outlives (h : e.Rooted) : Outlives (fun _ => False) e e where
  rooted := h
  nextId := UInt32.le_refl _
  pins n hn _ hp _ := ⟨n, hn, hp⟩
  stays _ _ hj _ _ := hj
  root _ hr := ⟨hr, id⟩

theorem map_id_replace (e : Editor) (n : UiNode) :
    (e.replace n).nodes.map UiNode.id = e.nodes.map UiNode.id := by
  simp only [replace, List.map_map]
  apply List.map_congr_left
  intro m _
  dsimp only [Function.comp]
  split
  · next hid => exact hid.symm
  · rfl

theorem map_id_drain (e : Editor) : e.drain.nodes.map UiNode.id = e.nodes.map UiNode.id :=
  drain_keeps (P := fun e' => e'.nodes.map UiNode.id = e.nodes.map UiNode.id) (fun _ h => h)
    (fun _ h _ => (map_id_replace _ _).trans h) rfl

namespace Outlives

/-- One step of an editor: pins of UI nodes may go, and those that come are new. -/
theorem step (h : Outlives gone e₀ e) {mine : Id → Prop} (ha : e.graph.Alters mine e'.graph)
    (hmine : ∀ p, mine p → ∃ n ∈ e.nodes, p ∈ n.pins)
    (hids : e'.nodes.map UiNode.id = e.nodes.map UiNode.id)
    (hpins : ∀ n' ∈ e'.nodes, ∀ p ∈ n'.pins, (∃ n ∈ e.nodes, p ∈ n.pins) ∨
      e.graph.nextId ≤ p ∧ p < e'.graph.nextId ∧ ∀ d, e'.graph.facing p = some d → d.isPin)
    (hroot : e'.root = e.root) : Outlives gone e₀ e' := by
  have hr := h.rooted
  have hidentity (n : UiNode) (hn : n ∈ e.nodes) : e'.graph.facing n.id = some .none := by
    refine hr.identity_alters ha hn fun hp => ?_
    obtain ⟨m, hm, hmem⟩ := hmine n.id hp
    exact hr.id_ne_pin hn hm hmem
  constructor
  · refine ⟨ha.consistent, hids ▸ hr.nodup, fun n' hn' => ?_, fun n' hn' p hp => ?_⟩
    · have hmem : n'.id ∈ e.nodes.map UiNode.id := hids ▸ List.mem_map_of_mem hn'
      obtain ⟨n, hn, heq⟩ := List.mem_map.1 hmem
      exact heq ▸ hidentity n hn
    · rcases hpins n' hn' p hp with ⟨n, hn, hmem⟩ | hnew
      · exact hr.pin_alters ha hn hmem
      · exact hnew.2
  · exact UInt32.le_trans h.nextId ha.nextId
  · -- a pin with an id from before was listed all the time
    intro n' hn' p hp hlt
    rcases hpins n' hn' p hp with ⟨n, hn, hmem⟩ | hnew
    · exact h.pins n hn p hmem hlt
    · have hle := UInt32.le_trans h.nextId hnew.1
      exact absurd (UInt32.lt_of_lt_of_le hlt hle) (UInt32.lt_irrefl p)
  · intro j hj hlive hunlisted hgone
    have hstill := h.stays j hj hlive hunlisted hgone
    rw [ha.hasNode_eq (UInt32.lt_of_lt_of_le hj h.nextId)]
    · exact hstill
    · intro hp
      obtain ⟨m, hm, hmem⟩ := hmine j hp
      obtain ⟨k, hk, hlisted⟩ := h.pins m hm j hmem hj
      exact hunlisted k hk hlisted
  · exact fun r hr => h.root r (hroot.symm.trans hr)

/-- A step in which only one UI node acts. -/
theorem turn (h : Outlives gone e₀ e) (hn : n ∈ e.nodes) (hr : n.Renewed e.graph n' s.graph) :
    Outlives gone e₀ (({ e with scene := s } : Editor).replace n') := by
  refine h.step hr.alters (fun p hp => ⟨n, hn, hp⟩) (map_id_replace _ n') ?_ rfl
  intro m hm p hp
  obtain ⟨k, hk, rfl⟩ := List.mem_map.1 hm
  split at hp
  · exact (hr.pins p hp).imp_left fun hmem => ⟨n, hn, hmem⟩
  · exact Or.inl ⟨k, hk, hp⟩

/-- A step in which no UI node acts. -/
theorem of_alters (h : Outlives gone e₀ e) (ha : e.graph.Alters (fun _ => False) e'.graph)
    (hnodes : e'.nodes = e.nodes) (hroot : e'.root = e.root) : Outlives gone e₀ e' :=
  h.step ha (fun _ hp => hp.elim) (hnodes ▸ rfl) (fun n hn _ hp => Or.inl ⟨n, hnodes ▸ hn, hp⟩)
    hroot

theorem withOutbox (h : Outlives gone e₀ e) (events : List Event) :
    Outlives gone e₀ (e.withGraph { e.graph with outbox := events }) :=
  h.of_alters (.withOutbox h.rooted.consistent events _) rfl rfl

theorem drain (h : Outlives gone e₀ e) : Outlives gone e₀ e.drain := by
  refine drain_keeps (P := Outlives gone e₀) (fun events h => h.withOutbox events) ?_ h
  intro e n event h hn
  exact h.turn hn (UiNode.renewed_onEvent h.rooted.consistent n event)

theorem update (h : Outlives gone e₀ e) (dt : Float32) : Outlives gone e₀ (e.update dt) := by
  have htick : Outlives gone e₀ (e.tick dt) :=
    h.of_alters (.refl h.rooted.consistent _) rfl rfl
  refine update_keeps (P := Outlives gone e₀) (fun h _ => h.drain) htick
    (drains_true e (.update dt)) ?_
  intro e n h hn
  exact h.turn hn (UiNode.renewed_onUpdate h.rooted.consistent n e.clock)

theorem set (h : Outlives gone e₀ e) (hn : n ∈ e.nodes) (hid : n'.id = n.id)
    (hpins : n'.pins = n.pins) (hs : s.graph = e.graph) {out : Id} (hout : out ∈ n.pins)
    (v : Value) : Outlives gone e₀ (({ e with scene := s.write out v } : Editor).replace n') := by
  have hc : s.graph.Consistent := hs ▸ h.rooted.consistent
  have hwrite : Scene.Move (fun _ => False) (· ∈ n.pins) s (s.write out v) := .write v hout
  refine h.turn hn ⟨hid, hs ▸ hwrite.alters hc, fun p hp => Or.inl (hpins ▸ hp)⟩

theorem evaluate (h : Outlives gone e₀ e) : Outlives gone e₀ e.evaluate.2 := by
  have hdistinct : e.Distinct := .of_lt h.rooted.nodup fun n hn o ho =>
    (h.rooted.pin n hn o (List.mem_append_right _ ho)).1
  have he := hdistinct.evaluated
  have hpins (m : UiNode) : m.unready.pins = m.pins := by
    rw [UiNode.pins, UiNode.inputs_unready, UiNode.outputs_unready, UiNode.pins]
  have hsame : e.graph.Alters (fun _ => False) e.evaluate.2.graph := by
    rw [he.graph]
    exact .refl h.rooted.consistent _
  refine h.step hsame (fun _ hp => hp.elim) ?_ ?_ he.root
  · rw [← map_id_unready, he.nodes, map_id_unready]
  · intro m hm p hp
    have hmem : m.unready ∈ e.nodes.map UiNode.unready := he.nodes ▸ List.mem_map_of_mem hm
    obtain ⟨k, hk, heq⟩ := List.mem_map.1 hmem
    refine Or.inl ⟨k, hk, ?_⟩
    rw [← hpins k, heq, hpins m]
    exact hp

end Outlives

/-! ## Requests -/

/-- If the root of `e'` is no node, it was the root before, and either no node then or a pin. -/
def HoldsRoot (e e' : Editor) : Prop :=
  ∀ r, e'.root = some r → e'.graph.hasNode r ∨
    e.root = some r ∧ (e.graph.hasNode r → ∃ n ∈ e.nodes, r ∈ n.pins)

theorem holdsRoot_of_none (h : e'.root = none) : e.HoldsRoot e' := by
  intro r hr
  rw [h] at hr
  cases hr

theorem Outlives.holdsRoot (h : Outlives gone e e') (hc : e.graph.Consistent) :
    e.HoldsRoot e' := by
  intro r hr
  obtain ⟨hroot, hgone⟩ := h.root r hr
  by_cases hlive : e'.graph.hasNode r
  · exact Or.inl hlive
  · refine Or.inr ⟨hroot, fun hnode => ?_⟩
    by_contra hunlisted
    push Not at hunlisted
    exact hlive (h.stays r (hc.node_lt r hnode) hnode hunlisted hgone)

namespace Rooted

/-- A UI node that lets go of some of its pins, and perhaps of its identity, is dismissed. -/
theorem dismiss_of_alters (h : e.Rooted) (hn : n ∈ e.nodes) {mine : Id → Prop}
    (ha : e.graph.Alters mine s.graph) (hmine : ∀ j, mine j → gone j ∨ j ∈ n.pins)
    (hgone : ∀ j, gone j → j = n.id) : Outlives gone e (e.dismiss n s) := by
  have hkept {m : UiNode} (hm : m ∈ (e.dismiss n s).nodes) : m ∈ e.nodes ∧ m.id ≠ n.id := by
    obtain ⟨hmem, hne⟩ := List.mem_filter.1 hm
    exact ⟨hmem, by simpa using hne⟩
  constructor
  · refine ⟨ha.consistent, h.nodup.sublist (List.filter_sublist.map _), ?_, ?_⟩
    · intro m hm
      obtain ⟨hm, hne⟩ := hkept hm
      refine h.identity_alters ha hm fun hmem => ?_
      rcases hmine _ hmem with hid | hpin
      · exact hne (hgone _ hid)
      · exact h.id_ne_pin hm hn hpin
    · exact fun m hm p hp => h.pin_alters ha (hkept hm).1 hp
  · exact ha.nextId
  · exact fun m hm p hp _ => ⟨m, (hkept hm).1, hp⟩
  · intro j hj hlive hunlisted hne
    refine (ha.hasNode_eq hj fun hmem => ?_).trans hlive
    rcases hmine _ hmem with hid | hpin
    · exact hne hid
    · exact hunlisted n hn hpin
  · intro r hr
    change (if e.root = some n.id then none else e.root) = some r at hr
    split at hr
    · cases hr
    · next hroot => exact ⟨hr, fun hid => hroot (hgone r hid ▸ hr)⟩

theorem dismiss (h : e.Rooted) (hn : n ∈ e.nodes) :
    Outlives (· = n.id) e (e.dismiss n (n.onDelete.on e.scene).2) := by
  have hmoves : Scene.Moves (· = n.id) n.Owns e.scene (n.onDelete.on e.scene).2 :=
    n.moves_onDelete e.scene
  exact h.dismiss_of_alters hn (hmoves.alters h.consistent) (fun _ howns => List.mem_cons.1 howns)
    fun _ hj => hj

/-- A new UI node stands beside the others. -/
theorem enroll (h : e.Rooted) (hs : Scene.Started e.scene n.id n.pins s) :
    (e.enroll n s).Rooted ∧ e.HoldsRoot (e.enroll n s) := by
  have ha := hs.grows.alters fun _ => False
  have hrooted : (e.enroll n s).Rooted := by
    refine ⟨ha.consistent, ?_, ?_, ?_⟩
    · change ((e.nodes ++ [n]).map UiNode.id).Nodup
      rw [List.map_append, List.map_singleton, List.nodup_append]
      refine ⟨h.nodup, List.nodup_singleton _, fun a ha b hb heq => ?_⟩
      obtain ⟨m, hm, rfl⟩ := List.mem_map.1 ha
      rw [List.mem_singleton.1 hb] at heq
      exact UInt32.lt_irrefl _ (UInt32.lt_of_lt_of_le (heq ▸ h.id_lt hm) hs.id.1)
    · refine List.forall_mem_append.2 ⟨fun m hm => ?_, List.forall_mem_singleton.2 hs.id.2⟩
      exact h.identity_alters ha hm id
    · refine List.forall_mem_append.2 ⟨fun m hm p hp => h.pin_alters ha hm hp,
        List.forall_mem_singleton.2 ?_⟩
      intro p hp
      obtain ⟨_, d, hd, hdir⟩ := hs.pins p hp
      refine ⟨ha.consistent.node_lt p (hasNode_of_facing hd), fun d' hd' => ?_⟩
      have heq : some d = some d' := hd.symm.trans hd'
      cases heq
      exact hdir
  refine ⟨hrooted, fun r hr => ?_⟩
  have hstill (hr : e.root = some r) : s.graph.hasNode r ∨
      e.root = some r ∧ (e.graph.hasNode r → ∃ n ∈ e.nodes, r ∈ n.pins) := by
    by_cases hlive : e.graph.hasNode r
    · exact Or.inl ((ha.hasNode_eq (h.consistent.node_lt r hlive) id).trans hlive)
    · exact Or.inr ⟨hr, fun hnode => absurd hnode hlive⟩
  change (if n.isRenderTarget then e.root.or (some n.id) else e.root) = some r at hr
  split at hr
  · cases hroot : e.root with
    | some r' =>
        rw [hroot] at hr
        exact hroot ▸ hstill (hroot.trans hr)
    | none =>
        rw [hroot] at hr
        cases hr
        exact Or.inl hs.hasNode
  · exact hstill hr

theorem new (services : Services) (settings : EvalSettings) :
    (Editor.new services settings).Rooted where
  consistent := .empty
  nodup := List.nodup_nil
  identity _ hn := nomatch hn
  pin _ hn := nomatch hn

/-- An operation drops no root but a pin. -/
theorem apply (h : e.Rooted) (hidle : e.graph.outbox = []) (op : Operation) :
    (op.apply e).Rooted ∧ e.HoldsRoot (op.apply e) := by
  have hc := h.consistent
  have hself := h.outlives
  have hof {gone : Id → Prop} {e' : Editor} (h : Outlives gone e e') :
      e'.Rooted ∧ e.HoldsRoot e' := ⟨h.rooted, h.holdsRoot hc⟩
  have hd := drains_true e op
  cases op with
  | addNode kind =>
      have hstarts := UiNode.create_starts hc kind
      refine addNode_keeps (P := fun e' => e'.Rooted ∧ e.HoldsRoot e') hidle ?_ ?_
      · intro err s hs
        exact hof (hself.of_alters ((hstarts.of_error hs).grows.alters _) rfl rfl)
      · exact fun n s hs => h.enroll (hstarts.of_ok hs)
  | removeNode id =>
      obtain ⟨gone, h'⟩ : ∃ gone, Outlives gone e (e.removeNode id).2 :=
        removeNode_keeps (P := fun e' => ∃ gone, Outlives gone e e')
          (fun h _ => h.imp fun _ h => h.drain) ⟨_, hself⟩ hd fun n hn => ⟨_, h.dismiss hn⟩
      exact hof h'
  | link a b =>
      refine hof (link_keeps (P := Outlives (fun _ => False) e) (fun h _ => h.drain) hself hd ?_)
      intro edge e' hmade
      obtain ⟨input, output, g, _, _, hadd, rfl⟩ := makeLink_eq_ok hmade
      exact hself.of_alters (.addsEdge (hc.addEdge hadd).2.2 _) rfl rfl
  | unlink edge =>
      refine hof (unlink_keeps (P := Outlives (fun _ => False) e) (fun h _ => h.drain) hc hself
        hd fun found g _ _ he => ?_)
      exact hself.of_alters (.erasesEdge he _) rfl rfl
  | setRoot root =>
      have hrooted (root : Option Id) : ({ e with root } : Editor).Rooted :=
        ⟨hc, h.nodup, h.identity, h.pin⟩
      cases root with
      | none => exact ⟨hrooted none, holdsRoot_of_none rfl⟩
      | some id =>
          rw [Operation.apply, setRoot]
          split
          · next hlive =>
            refine ⟨hrooted (some id), ?_⟩
            rintro r ⟨⟩
            exact Or.inl hlive
          · exact hof hself
  | setPin pin v =>
      refine hof (setPin_keeps (P := Outlives (fun _ => False) e) hself fun u _ => ?_)
      exact hself.of_alters (Scene.alters_write hc pin u _) rfl rfl
  | setAsset id path =>
      refine hof (setAsset_keeps (P := Outlives (fun _ => False) e) hidle hself ?_)
      intro kind id output old index s hn hs
      obtain rfl : (e.scene.resolveAsset kind path).2 = s := congrArg Prod.snd hs
      refine hself.set hn ?_ ?_ (Scene.graph_resolveAsset e.scene kind path).1
        List.mem_cons_self (.int index)
      · rfl
      · rfl
  | setShape id shape =>
      refine hof (setShape_keeps (P := Outlives (fun _ => False) e) hidle hself ?_)
      intro id output old index s hn hs
      obtain rfl : (e.scene.resolvePrimitive shape).2 = s := congrArg Prod.snd hs
      refine hself.set hn ?_ ?_ (Scene.graph_resolvePrimitive e.scene shape).1
        List.mem_cons_self (.int index)
      · rfl
      · rfl
  | setColor id color =>
      refine hof (setColor_keeps (P := Outlives (fun _ => False) e) hidle hself fun d hn => ?_)
      exact hself.turn hn ⟨rfl, .refl hc _, fun p hp => Or.inl hp⟩
  | setLens id fov aspect near far =>
      refine hof (setLens_keeps (P := Outlives (fun _ => False) e) hidle hself fun c hn => ?_)
      exact hself.turn hn ⟨rfl, .refl hc _, fun p hp => Or.inl hp⟩
  | reloadShader shader =>
      refine hof (reloadShader_keeps (P := Outlives (fun _ => False) e) (fun h _ => h.drain) hself
        hd fun l _ => ?_)
      exact hself.of_alters (.withOutbox hc _ _) rfl rfl
  | update dt => exact hof (hself.update dt)
  | evaluate => exact hof hself.evaluate
  | frame dt => exact hof (hself.update dt).evaluate
  | serve services => exact hof (hself.of_alters (.refl hc _) rfl rfl)
  | clear => exact ⟨new e.scene.services e.settings, holdsRoot_of_none rfl⟩

end Rooted

/-! ## Loading -/

/-- What a UI node lists: its identity and its pins. -/
def listing (n : UiNode) : Id × List Id := (n.id, n.pins)

/-- What holds of the ids that some UI nodes list holds of those that others list alike. -/
theorem forall_listing {P : Id → List Id → Prop} {ns ms : List UiNode}
    (h : ns.map listing = ms.map listing) :
    (∀ n ∈ ns, P n.id n.pins) ↔ ∀ m ∈ ms, P m.id m.pins := by
  have hlist (ns : List UiNode) :
      (∀ n ∈ ns, P n.id n.pins) ↔ ∀ l ∈ ns.map listing, P l.1 l.2 := by
    rw [List.forall_mem_map]
    rfl
  rw [hlist, h, ← hlist]

theorem listings_ofDocument (d : Document) (services : Services) (settings : EvalSettings) :
    (ofDocument d services settings).nodes.map listing = d.nodes.map listing := by
  have hlisting (ns : List UiNode) : ns.map listing = (ns.map UiNode.essence).map listing := by
    rw [List.map_map]
    apply List.map_congr_left
    intro n _
    cases n <;> rfl
  rw [hlisting, hlisting d.nodes]
  exact congrArg (List.map listing) (essence_loadNodes d.nodes { graph := d.graph, services })

theorem facing_ofDocument (d : Document) (services : Services) (settings : EvalSettings) (j : Id) :
    (ofDocument d services settings).graph.facing j = d.graph.facing j := by
  have houtline := (refills_loadNodes d.nodes { graph := d.graph, services }).outline j
  have hfacing (g : Graph) : g.facing j = (g.outline j).map Prod.snd := by
    rw [facing, outline, Option.map_map]
    rfl
  rw [hfacing d.graph, ← houtline, ← hfacing]
  rfl

theorem facing_of_resolves {g : Graph} (h : Document.resolves g n) :
    g.facing n.id = some .none ∧ ∀ p ∈ n.pins, ∃ d, g.facing p = some d ∧ d.isPin := by
  obtain ⟨hid, hpins⟩ := Bool.and_eq_true_iff.1 h
  constructor
  · obtain ⟨m, hm, hdir⟩ := (Option.any_eq_true ..).1 hid
    rw [facing, hm, Option.map_some]
    cases hm : m.direction with
    | none => rfl
    | input | output =>
        rw [hm] at hdir
        cases hdir
  · intro p hp
    obtain ⟨m, hm, hdir⟩ := (Option.any_eq_true ..).1 (List.all_eq_true.1 hpins p hp)
    exact ⟨m.direction, by rw [facing, hm, Option.map_some], hdir⟩

/-- What a text gives fits together, whatever the text. -/
theorem rooted_ofDocument {d : Document} (hd : d.Parsed) (services : Services)
    (settings : EvalSettings) : (ofDocument d services settings).Rooted ∧
      ∀ r, (ofDocument d services settings).root = some r →
        (ofDocument d services settings).graph.hasNode r := by
  have hlistings := listings_ofDocument d services settings
  have hfacing := facing_ofDocument d services settings
  have hc : (ofDocument d services settings).graph.Consistent :=
    (loadNodes_keeps (P := Graph.Consistent) (fun s pin v h => Scene.consistent_write h pin v)
      hd.quiet.1 d.nodes).withOutbox []
  have hrooted : (ofDocument d services settings).Rooted := by
    refine ⟨hc, ?_, ?_, ?_⟩
    · have hids (ns : List UiNode) : ns.map UiNode.id = (ns.map listing).map Prod.fst := by
        rw [List.map_map]
        rfl
      rw [hids, hlistings, ← hids]
      exact hd.taken.nodup
    · refine (forall_listing hlistings (P := fun id _ =>
        (ofDocument d services settings).graph.facing id = some .none)).2 fun n hn => ?_
      rw [hfacing]
      exact (facing_of_resolves (hd.taken.resolves n hn)).1
    · refine (forall_listing hlistings (P := fun _ pins => ∀ p ∈ pins,
        p < (ofDocument d services settings).graph.nextId ∧
          ∀ dir, (ofDocument d services settings).graph.facing p = some dir → dir.isPin)).2 ?_
      intro n hn p hp
      obtain ⟨dir, hdir, hisPin⟩ := (facing_of_resolves (hd.taken.resolves n hn)).2 p hp
      have hsame := (hfacing p).trans hdir
      refine ⟨hc.node_lt p (hasNode_of_facing hsame), fun dir' hdir' => ?_⟩
      cases hsame.symm.trans hdir'
      exact hisPin
  refine ⟨hrooted, fun r hr => ?_⟩
  change d.root.or (((ofDocument d services settings).nodes.find? (·.isRenderTarget)).map (·.id)) =
    some r at hr
  rcases Option.or_eq_some_iff.1 hr with hroot | ⟨_, hfound⟩
  · have hlive := hd.root
    rw [hroot, Option.filter_eq_some_iff] at hlive
    rw [← isSome_facing, hfacing, isSome_facing]
    exact hlive.2
  · obtain ⟨m, hm, rfl⟩ := Option.map_eq_some_iff.1 hfound
    exact hrooted.hasNode_id (List.mem_of_find?_eq_some hm)

theorem Rooted.load (h : e.Rooted) (text : String) :
    (e.load text).2.Rooted ∧ e.HoldsRoot (e.load text).2 := by
  unfold Editor.load
  split
  · exact ⟨h, h.outlives.holdsRoot h.consistent⟩
  · next d hd =>
    obtain ⟨hrooted, hroot⟩ := rooted_ofDocument (Document.parsed_of_parse hd) e.scene.services
      e.settings
    exact ⟨hrooted, fun r hr => Or.inl (hroot r hr)⟩

/-- The editors that operations and texts lead to from a new one. -/
inductive Opened : Editor → Prop
  | new (services : Services) (settings : EvalSettings) : Opened (.new services settings)
  | step {e : Editor} (h : Opened e) (r : Request) : Opened (r.apply e)

theorem outbox_load (hidle : e.graph.outbox = []) (text : String) :
    (e.load text).2.graph.outbox = [] := by
  unfold Editor.load
  split
  · exact hidle
  · rfl

theorem Opened.outbox (h : Opened e) : e.graph.outbox = [] := by
  induction h with
  | new services settings => rfl
  | step _ r ih =>
      cases r with
      | operate op => exact outbox_apply ih op
      | load text => exact outbox_load ih text

theorem Opened.rooted (h : Opened e) : e.Rooted := by
  induction h with
  | new services settings => exact .new services settings
  | step h r ih =>
      cases r with
      | operate op => exact (ih.apply h.outbox op).1
      | load text => exact (ih.load text).1

/-- A request drops no root but a pin. -/
theorem Opened.holdsRoot (h : Opened e) (r : Request) : e.HoldsRoot (r.apply e) := by
  cases r with
  | operate op => exact (h.rooted.apply h.outbox op).2
  | load text => exact (h.rooted.load text).2

end Editor

end DrawGraph
