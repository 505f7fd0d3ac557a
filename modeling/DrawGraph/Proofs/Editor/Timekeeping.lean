import DrawGraph.Proofs.Editor.Midway
import DrawGraph.Proofs.Editor.Sharing

/-!
# Time nodes that know the time

An update tells every time node the time, and an evaluation tells it to those that it gets past.
From then on the output of such a node holds what the clock says until it is set: no other UI node
writes there, and the clock moves in updates only.
-/

namespace DrawGraph

open Evaluation Machine

namespace Operation

open Editor

/-- The operation tells a time node the time. -/
def Tells (e : Editor) (m : UiNode) : Operation → Prop
  | update _ | frame _ => True
  | evaluate => ∃ root, e.root = some root ∧ e.Reduces root m.id
  | _ => False

/-- The operation sets an output of the UI node. -/
def Sets (e : Editor) (m : UiNode) : Operation → Prop
  | setPin pin v => pin ∈ m.outputs ∧ (e.setPin pin v).1 = .ok ()
  | _ => False

end Operation

theorem UiNode.onEvent_of_time {n : UiNode} (event : Event) (s : Scene)
    (h : (n.onEvent event s).1.kind = .time) : n.onEvent event s = (n, s) := by
  unfold onEvent at h ⊢
  split at h <;> first | rfl | cases h

namespace Editor

variable {w : Wiring} {e x : Editor} {n m : UiNode} {id o : Id} {done order : List UiNode}
  {ids : List Id} {k k' : Machine (List UiNode)} {dt : Float32}

/-- The time node is there, and it has been told the time since it was made and since its output
was set for the last time. -/
inductive Told (m : UiNode) : Editor → Prop
  | tell {e : Editor} (h : Ran e) (op : Operation) (htells : op.Tells e m)
      (hm : m ∈ (op.apply e).nodes) : Told m (op.apply e)
  | keep {e : Editor} (h : Told m e) (op : Operation) (hunset : ¬ op.Sets e m)
      (hm : m ∈ (op.apply e).nodes) : Told m (op.apply e)

theorem Told.ran (h : Told m e) : Ran e := by
  induction h with
  | tell h op => exact h.step op
  | keep _ op _ _ ih => exact ih.step op

theorem Told.mem (h : Told m e) : m ∈ e.nodes := by
  cases h with
  | tell _ _ _ hm => exact hm
  | keep _ _ _ hm => exact hm

/-- The outputs of the UI node hold what the clock says. -/
def Clocked (e : Editor) (m : UiNode) : Prop :=
  ∀ o ∈ m.outputs, e.values.get? o = some (.float e.clock.elapsed)

/-! ## Updates -/

/-- When all have had their turns, the outputs of time nodes hold the clock. -/
theorem Midway.clocked (hx : e.Midway done x) (hall : ∀ m ∈ e.nodes, m ∈ done) (hm : m ∈ x.nodes)
    (hkind : m.kind = .time) : x.Clocked m := by
  rcases hx.nodes m hm with hm | ⟨d, d', _, rfl⟩
  · intro o ho
    rw [hx.output m hm o ho, given, if_pos ⟨hall m hm, hkind⟩, hx.clock]
  · cases hkind

theorem Ran.midway (h : Ran e) (dt : Float32) (horder : order.Perm e.nodes) :
    (e.tick dt).Midway order ((e.tick dt).turns order) := by
  obtain ⟨w, hheld⟩ := h.held
  have htick : (e.tick dt).Held True w := ⟨hheld.laid, hheld.casts, hheld.bus⟩
  have hboxed : (e.tick dt).Boxed := h.boxed
  have hnodup : order.Nodup := horder.nodup_iff.2 (List.Nodup.of_map _ hheld.casts.nodup)
  exact (Midway.start htick hboxed h.outbox).turns htick hboxed (fun m hm => horder.mem_iff.1 hm)
    hnodup

theorem Ran.clocked_update (h : Ran e) (dt : Float32) (hm : m ∈ (e.update dt).nodes)
    (hkind : m.kind = .time) : (e.update dt).Clocked m :=
  (h.midway dt (.refl e.nodes)).clocked (fun _ hm => hm) hm hkind

/-! ## Evaluations -/

/-- The visit of a time node tells it the time. -/
theorem Held.visit_time (h : e.Held True w) (hm : .time id o ∈ e.nodes) (hk : e.Amid k) :
    ∃ k', (visit e.graph e.clock.elapsed owners id).on k = (.ok (), k') ∧
      k'.values.get? o = some (.float e.clock.elapsed) := by
  have hrole : w id = some (.identity [] [o]) := (h.casts.plays _ hm).identity
  have hnil : e.graph.neighbors id = [] := (h.laid.lies id _ hrole).heads
  have hlength : ([] : List Value).length = (e.graph.neighbors id).length := by rw [hnil]; rfl
  have hstack : k.stack = ([] : List Value).reverse ++ k.stack := rfl
  have hvisit := h.visit_on hk (Option.isSome_of_eq_some hrole) hlength hstack
  obtain ⟨type, heffect⟩ := h.effectAt_node hm
  rw [show e.effectAt id [] = _ from heffect []] at hvisit
  exact ⟨_, hvisit, (Table.get?_put ..).trans (if_pos rfl)⟩

/-- No other visit reaches its output. -/
theorem Held.visit_other (h : e.Held True w) (hm : .time id o ∈ e.nodes) (hk : e.Amid k) {j : Id}
    (hne : j ≠ id) : ((visit e.graph e.clock.elapsed owners j).on k).2.values.get? o =
      k.values.get? o := by
  have hnodup : ((e.nodes.map UiNode.unready).map UiNode.id).Nodup := by
    rw [map_id_unready]
    exact h.casts.nodup
  have hresults : ∀ n ∈ e.nodes.map UiNode.unready, n.id = j → o ∉ n.results := by
    rintro _ hmem rfl hres
    obtain ⟨n, hn, rfl⟩ := List.mem_map.1 hmem
    rw [n.id_unready] at hne
    rw [n.results_unready] at hres
    exact h.not_owns hn hm (Ne.symm hne) (UiNode.owns_output (List.mem_singleton_self o))
      (UiNode.owns_output (n.results_subset hres))
  exact (untouched_of_moves (moves_visit hnodup e.graph e.clock.elapsed hresults k) hk.nodes).1

/-- After a walk the output of a time node holds the time, if it held it before or if the walk has
got past the time node. -/
theorem Held.replay_time (h : e.Held True w) (hm : .time id o ∈ e.nodes) (hk : e.Amid k)
    {r : Except EvalError Unit}
    (hrun : (replay e.graph e.clock.elapsed owners ids).on k = (r, k'))
    (htold : k.values.get? o = some (.float e.clock.elapsed) ∨ r = .ok () ∧ id ∈ ids) :
    k'.values.get? o = some (.float e.clock.elapsed) := by
  induction ids generalizing k with
  | nil =>
      cases hrun
      exact htold.resolve_right fun hand => List.not_mem_nil hand.2
  | cons j ids ih =>
      by_cases hj : j = id
      · subst hj
        obtain ⟨k₁, hvisit, hbox⟩ := h.visit_time hm hk
        have hone : (replay e.graph e.clock.elapsed owners [j]).on k = (.ok (), k₁) :=
          (Attempt.on_bind_of_ok hvisit).trans rfl
        exact ih (hk.replay h.distinct hone) ((Attempt.on_bind_of_ok hvisit).symm.trans hrun)
          (Or.inl hbox)
      · have hkept := h.visit_other hm hk hj
        rcases hvisit : (visit e.graph e.clock.elapsed owners j).on k with ⟨err | u, k₁⟩
        · rw [hvisit] at hkept
          cases (Attempt.on_bind_of_error hvisit).symm.trans hrun
          exact hkept.trans (htold.resolve_right fun hand => nomatch hand.1)
        · rw [hvisit] at hkept
          have hone : (replay e.graph e.clock.elapsed owners [j]).on k = (.ok (), k₁) :=
            (Attempt.on_bind_of_ok hvisit).trans rfl
          refine ih (hk.replay h.distinct hone) ((Attempt.on_bind_of_ok hvisit).symm.trans hrun) ?_
          rw [hkept]
          exact htold.imp_right fun ⟨hok, hmem⟩ => ⟨hok, List.mem_of_ne_of_mem (Ne.symm hj) hmem⟩

/-- An evaluation leaves the clock, and beside that of a walk it makes no change to boxes. -/
theorem evaluate_of_walk {root : Id} (hroot : e.root = some root)
    (hr : e.graph.reductionOrder e.settings root = .ok ids) :
    e.evaluate.2.clock = e.clock ∧ e.evaluate.2.values = (e.replayed ids).2.values := by
  rw [evaluate_of_order hroot hr]
  rcases e.replayed ids with ⟨err | u, k⟩
  · obtain ⟨nodes, heq⟩ := (e.walked k).invalidate_eq root
    dsimp only
    rw [heq]
    exact ⟨rfl, rfl⟩
  · exact ⟨rfl, rfl⟩

theorem evaluate_of_no_walk (h : ∀ root order, e.root = some root →
    e.graph.reductionOrder e.settings root ≠ .ok order) :
    e.evaluate.2.clock = e.clock ∧ e.evaluate.2.values = e.values := by
  cases hroot : e.root with
  | none =>
      have hfail : e.evaluate = (.error (.eval .missingRoot), e) := by rw [evaluate, hroot]
      rw [hfail]
      exact ⟨rfl, rfl⟩
  | some root =>
      cases hr : e.graph.reductionOrder e.settings root with
      | ok order => exact absurd hr (h root order hroot)
      | error err =>
          obtain ⟨nodes, heq⟩ := e.invalidate_eq root
          rw [evaluate_of_no_order hroot hr]
          dsimp only
          rw [heq]
          exact ⟨rfl, rfl⟩

/-- An evaluation that gets past a time node tells it the time, and any evaluation leaves it the
time that it knows. -/
theorem Held.clocked_evaluate (h : e.Held True w) (hm : m ∈ e.nodes) (hkind : m.kind = .time)
    (htold : e.Clocked m ∨ ∃ root, e.root = some root ∧ e.Reduces root m.id) :
    e.evaluate.2.Clocked m := by
  obtain ⟨id, o, rfl⟩ := UiNode.eq_time_of_kind hkind
  intro p hp
  obtain rfl := List.mem_singleton.1 hp
  by_cases hwalk : ∃ root order, e.root = some root ∧
      e.graph.reductionOrder e.settings root = .ok order
  · obtain ⟨root, order, hroot, hr⟩ := hwalk
    obtain ⟨hclock, hvalues⟩ := evaluate_of_walk hroot hr
    rw [hclock, hvalues]
    rcases htold with hclocked | ⟨root', hroot', order', pre, post, hr', rfl, hpre, hok⟩
    · exact h.replay_time hm (.start e) rfl (Or.inl (hclocked p hp))
    · obtain rfl : root = root' := Option.some.inj (hroot.symm.trans hroot')
      obtain rfl : order = pre ++ post := Except.ok.inj (hr.symm.trans hr')
      rcases hrun : e.replayed pre with ⟨r, k⟩
      rw [hrun] at hok
      obtain rfl : r = .ok () := hok
      have htold := h.replay_time hm (.start e) hrun (Or.inr ⟨rfl, hpre⟩)
      rw [replayed, replay_append, Attempt.on_bind_of_ok hrun]
      exact h.replay_time hm ((Amid.start e).replay h.distinct hrun) rfl (Or.inl htold)
  · have hnone := evaluate_of_no_walk fun root order hroot hr => hwalk ⟨root, order, hroot, hr⟩
    rw [hnone.1, hnone.2]
    refine htold.elim (fun hclocked => hclocked p hp) ?_
    rintro ⟨root, hroot, order, _, _, hr, _⟩
    exact absurd ⟨root, order, hroot, hr⟩ hwalk

/-- Time nodes are left as they are. -/
theorem Held.mem_of_evaluate (h : e.Held True w) (hm : m ∈ e.evaluate.2.nodes)
    (hkind : m.kind = .time) : m ∈ e.nodes := by
  obtain ⟨id, o, rfl⟩ := UiNode.eq_time_of_kind hkind
  have hmem : UiNode.time id o ∈ e.nodes.map UiNode.unready :=
    h.distinct.evaluated.nodes ▸ List.mem_map_of_mem (f := UiNode.unready) hm
  obtain ⟨n, hn, heq⟩ := List.mem_map.1 hmem
  cases n <;> cases heq
  exact hn

theorem Ran.clocked_frame (h : Ran e) (dt : Float32) (hm : m ∈ (e.frame dt).2.nodes)
    (hkind : m.kind = .time) : (e.frame dt).2.Clocked m := by
  obtain ⟨w, hheld⟩ := (h.step (.update dt)).held
  have hmem : m ∈ (e.update dt).nodes := hheld.mem_of_evaluate hm hkind
  exact hheld.clocked_evaluate hmem hkind (Or.inl (h.clocked_update dt hmem hkind))

/-! ## Other operations -/

/-- What one UI node does leaves what another one shows. -/
theorem Held.clocked_moved (h : e.Held True w) (hclocked : e.Clocked m) (hm : m ∈ e.nodes)
    (hn : n ∈ e.nodes) (hne : m.id ≠ n.id) {s : Scene}
    (hmoves : Scene.Moves (· = n.id) n.Owns e.scene s) (ho : o ∈ m.outputs) :
    s.values.get? o = some (.float e.clock.elapsed) := by
  have hpin : m.Owns o := UiNode.owns_output ho
  exact (hmoves.box h.consistent (h.owns_lt hm hpin) (h.not_owns hn hm hne hpin)).trans
    (hclocked o ho)

theorem Held.clocked_event (h : e.Held True w) (hkind : m.kind = .time)
    (hclocked : m ∈ e.nodes → e.Clocked m) (hn : n ∈ e.nodes) (event : Event)
    (hm : m ∈ (e.act n (·.onEvent event)).nodes) : (e.act n (·.onEvent event)).Clocked m := by
  intro o ho
  change (n.onEvent event e.scene).2.values.get? o = some (.float e.clock.elapsed)
  rcases mem_act hm with hself | ⟨hm, hne⟩
  · have hsame := UiNode.onEvent_of_time event e.scene (hself ▸ hkind)
    rw [hsame] at hself ⊢
    exact hclocked (hself ▸ hn) o ho
  · rw [n.id_onEvent] at hne
    exact h.clocked_moved (hclocked hm) hm hn hne (n.moves_onEvent event e.scene) ho

/-- What holds while events are delivered. -/
def StillClocked (m : UiNode) (e : Editor) : Prop :=
  (∃ w, e.Held True w) ∧ (m ∈ e.nodes → e.Clocked m)

theorem StillClocked.drain (hkind : m.kind = .time) (h : StillClocked m e) : StillClocked m e.drain := by
  refine drain_keeps (P := StillClocked m) ?_ ?_ h
  · rintro e events ⟨⟨w, h⟩, hclocked⟩
    exact ⟨⟨w, h.withOutbox events⟩, hclocked⟩
  · rintro e n event ⟨⟨w, h⟩, hclocked⟩ hn
    exact ⟨h.event hn event, fun hm => h.clocked_event hkind hclocked hn event hm⟩

/-- What is set on another UI node and written into a box of its own leaves what a time node
shows. -/
theorem Held.clocked_set (h : e.Held True w) (hclocked : e.Clocked m) (hm : m ∈ e.nodes)
    (hkind : m.kind = .time) (hn : n ∈ e.nodes) (hother : n.kind ≠ .time) {output : Id}
    (hout : n.Owns output) {s : Scene} (hs : s.values = e.values) (v : Value) (n' : UiNode) :
    (({ e with scene := s.write output v } : Editor).replace n').Clocked m := by
  intro o ho
  have hne : m.id ≠ n.id := fun hid => hother (h.casts.eq_of_id hm hn hid ▸ hkind)
  have hpin : o ≠ output := by
    rintro rfl
    exact h.not_owns hn hm hne (UiNode.owns_output ho) hout
  change (s.write output v).values.get? o = some (.float e.clock.elapsed)
  rw [Scene.get?_write, if_neg hpin, hs]
  exact hclocked o ho

theorem Held.clocked_addNode (h : e.Held True w) (hidle : e.graph.outbox = []) (hclocked : e.Clocked m)
    (hm : m ∈ e.nodes) (kind : UiNodeKind) : (e.addNode kind).2.Clocked m := by
  have hmoves : Scene.Moves (fun _ => True) (fun _ => False) e.scene
      ((UiNode.create kind).on e.scene).2 := UiNode.moves_create kind e.scene
  have hbox (o : Id) (ho : o ∈ m.outputs) :
      ((UiNode.create kind).on e.scene).2.values.get? o = some (.float e.clock.elapsed) := by
    have hlt := h.owns_lt hm (UiNode.owns_output ho)
    exact (hmoves.box h.consistent hlt fun hfalse => hfalse).trans (hclocked o ho)
  refine addNode_keeps (P := (·.Clocked m)) hidle (fun err s hx => ?_) fun n s hx => ?_ <;>
    rw [hx] at hbox <;> exact hbox

theorem Clocked.setPin (h : e.Clocked m) {pin : Id} {v : Value}
    (hunset : ¬ (Operation.setPin pin v).Sets e m) : (e.setPin pin v).2.Clocked m := by
  cases hpin : e.pinKind pin with
  | error err =>
      simp only [Editor.setPin, hpin]
      exact h
  | ok kind =>
      cases hv : v.coerce kind with
      | none =>
          simp only [Editor.setPin, hpin, hv]
          exact h
      | some u =>
          simp only [Operation.Sets, Editor.setPin, hpin, hv, and_true] at hunset ⊢
          intro o ho
          refine (Scene.get?_write ..).trans ((if_neg ?_).trans (h o ho))
          rintro rfl
          exact hunset ho

/-- A time node that knows the time still knows it after an operation that does not set its
output. -/
theorem Ran.clocked_apply (h : Ran e) (hm : m ∈ e.nodes) (hkind : m.kind = .time)
    (hclocked : e.Clocked m) {op : Operation} (hunset : ¬ op.Sets e m)
    (hm' : m ∈ (op.apply e).nodes) : (op.apply e).Clocked m := by
  obtain ⟨w, hheld⟩ := h.held
  have hidle := h.outbox
  have hd := drains_true e op
  have hdrain {e : Editor} (h : StillClocked m e) (_ : True) : StillClocked m e.drain := h.drain hkind
  have hstill : StillClocked m e := ⟨⟨w, hheld⟩, fun _ => hclocked⟩
  cases op with
  | addNode kind => exact hheld.clocked_addNode hidle hclocked hm kind
  | removeNode id =>
      refine (removeNode_keeps (P := StillClocked m) hdrain hstill hd fun n hn => ?_).2 hm'
      refine ⟨hheld.dismiss hn, fun hm o ho => ?_⟩
      obtain ⟨hm, hne⟩ := List.mem_filter.1 hm
      exact hheld.clocked_moved hclocked hm hn (by simpa using hne) (n.moves_onDelete e.scene) ho
  | link a b =>
      refine (link_keeps (P := StillClocked m) hdrain hstill hd fun edge e' hmade => ?_).2 hm'
      refine ⟨⟨w, hheld.makeLink hmade⟩, ?_⟩
      obtain ⟨_, _, _, _, _, _, rfl⟩ := makeLink_eq_ok hmade
      exact fun _ => hclocked
  | unlink edge =>
      exact (unlink_keeps (P := StillClocked m) hdrain hheld.consistent hstill hd
        fun found g hfound hx he => ⟨⟨w, hheld.unlink hfound hx he⟩, fun _ => hclocked⟩).2 hm'
  | setRoot root => exact setRoot_keeps (P := (·.Clocked m)) hclocked fun _ => hclocked
  | setPin pin v => exact hclocked.setPin hunset
  | setAsset id path =>
      refine setAsset_keeps (P := (·.Clocked m)) hidle hclocked ?_
      intro kind id output old index s hn hs
      obtain rfl : (e.scene.resolveAsset kind path).2 = s := congrArg Prod.snd hs
      have hother : (UiNode.asset kind id output old).kind ≠ .time := by cases kind <;> nofun
      exact hheld.clocked_set hclocked hm hkind hn hother (UiNode.owns_output List.mem_cons_self)
        (Scene.graph_resolveAsset e.scene kind path).2 _ _
  | setShape id shape =>
      refine setShape_keeps (P := (·.Clocked m)) hidle hclocked ?_
      intro id output old index s hn hs
      obtain rfl : (e.scene.resolvePrimitive shape).2 = s := congrArg Prod.snd hs
      exact hheld.clocked_set hclocked hm hkind hn (by nofun) (UiNode.owns_output List.mem_cons_self)
        (Scene.graph_resolvePrimitive e.scene shape).2 _ _
  | setColor id color => exact setColor_keeps (P := (·.Clocked m)) hidle hclocked fun _ _ => hclocked
  | setLens id fov aspect near far =>
      exact setLens_keeps (P := (·.Clocked m)) hidle hclocked fun _ _ => hclocked
  | reloadShader shader =>
      exact (reloadShader_keeps (P := StillClocked m) hdrain hstill hd fun l _ =>
        ⟨⟨w, hheld.laid.withOutbox _, hheld.casts, hheld.bus⟩, fun _ => hclocked⟩).2 hm'
  | update dt => exact h.clocked_update dt hm' hkind
  | evaluate => exact hheld.clocked_evaluate hm hkind (Or.inl hclocked)
  | frame dt => exact h.clocked_frame dt hm' hkind
  | serve services => exact hclocked
  | clear => cases hm'

/-- From when a time node has been told the time until its output is set, the output holds what the
clock says. -/
theorem Told.clocked (h : Told m e) (hkind : m.kind = .time) : e.Clocked m := by
  induction h with
  | @tell e h op htells hm =>
      obtain ⟨w, hheld⟩ := h.held
      cases op with
      | update dt => exact h.clocked_update dt hm hkind
      | frame dt => exact h.clocked_frame dt hm hkind
      | evaluate =>
          exact hheld.clocked_evaluate (hheld.mem_of_evaluate hm hkind) hkind (Or.inr htells)
      | _ => cases htells
  | keep h op hunset hm ih => exact h.ran.clocked_apply h.mem hkind ih hunset hm

end Editor

end DrawGraph
