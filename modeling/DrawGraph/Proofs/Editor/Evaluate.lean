import DrawGraph.Proofs.Editor.Walk
import DrawGraph.Proofs.Graph.Cycle

/-!
# Evaluations of sound editors

In a sound editor a walk from a live root finds no cycle. It ends by the limit on visits, by a clash
of an input with its supply, or with one value on the stack, which is none when the root is the
identity of a render target. However it ends, the editor stays sound.
-/

namespace DrawGraph

open Evaluation Wiring

namespace Editor

variable {w : Wiring} {e : Editor} {root : Id} {order : List Id} {m : Machine (List UiNode)}

def start (e : Editor) : Machine (List UiNode) := { values := e.values, owner := e.nodes }

/-- The editor after a walk that ended in this way. -/
def walked (e : Editor) (m : Machine (List UiNode)) : Editor :=
  { e with scene := { e.scene with values := m.values }, nodes := m.owner }

def replayed (e : Editor) (order : List Id) : Except EvalError Unit × Machine (List UiNode) :=
  (replay e.graph e.clock.elapsed owners order).on e.start

theorem Sound.walks (hs : e.Sound w) : Walks w e.graph e.bus e.start :=
  ⟨hs.wired, hs.casts, hs.bus.symm⟩

theorem evaluate_of_order (hroot : e.root = some root)
    (hr : e.graph.reductionOrder e.settings root = .ok order) :
    e.evaluate =
      match e.replayed order with
      | (.error err, m) => (.error (.eval err), (e.walked m).invalidate root)
      | (.ok _, m) => (.ok (report m order.length),
          (e.walked m).withServices (m.calls.foldl render e.scene.services)) := by
  have hrun : run e.graph e.settings root e.clock.elapsed owners e.values e.nodes =
      ((e.replayed order).1.map fun _ => report (e.replayed order).2 order.length,
        (e.replayed order).2.values, (e.replayed order).2.owner) := by
    rw [run, hr]
    rfl
  unfold evaluate
  split
  · next hnone => simp [hroot] at hnone
  · next root' hsome =>
    obtain rfl : root = root' := Option.some.inj (hroot.symm.trans hsome)
    rw [hrun]
    obtain ⟨r, m⟩ := e.replayed order
    cases r <;> rfl

theorem evaluate_of_no_order (hroot : e.root = some root) {err : EvalError}
    (hr : e.graph.reductionOrder e.settings root = .error err) :
    e.evaluate = (.error (.eval err), e.invalidate root) := by
  unfold evaluate
  split
  · next hnone => simp [hroot] at hnone
  · next root' hsome =>
    obtain rfl : root = root' := Option.some.inj (hroot.symm.trans hsome)
    rw [run, hr]
    rfl

/-- An evaluation that succeeds has walked without failing. -/
theorem evaluate_eq_ok {report : EvalReport} {e' : Editor}
    (h : e.evaluate = (.ok report, e')) : ∃ root order m, e.root = some root ∧
      e.graph.reductionOrder e.settings root = .ok order ∧ e.replayed order = (.ok (), m) ∧
        report = Evaluation.report m order.length ∧
          e' = (e.walked m).withServices (m.calls.foldl render e.scene.services) := by
  cases hroot : e.root with
  | none =>
      rw [evaluate, hroot] at h
      cases h
  | some root =>
      cases hr : e.graph.reductionOrder e.settings root with
      | error err =>
          rw [evaluate_of_no_order hroot hr] at h
          cases h
      | ok order =>
          rw [evaluate_of_order hroot hr] at h
          cases hrun : e.replayed order with
          | mk r m =>
              rw [hrun] at h
              cases r with
              | error err => cases h
              | ok u =>
                  cases h
                  exact ⟨root, order, m, rfl, hr, hrun, rfl, rfl⟩

/-- A live root of a sound editor leads into no cycle. -/
theorem Sound.reductionOrder_cases (hs : e.Sound w) (hlive : e.graph.hasNode root) :
    (∃ order, e.graph.reductionOrder e.settings root = .ok order) ∨
      e.graph.reductionOrder e.settings root = .error (.visitLimit e.settings.maxVisits) := by
  unfold Graph.reductionOrder
  simp only [hlive, hs.wired.acyclic.hasCycleFrom_eq_false, Bool.not_true, Bool.false_eq_true,
    if_false]
  split
  · exact Or.inl ⟨_, rfl⟩
  · exact Or.inr rfl

/-- A walk from a root is not refused when it may visit as many nodes as it meets. -/
theorem Sound.reductionOrder_eq (hs : e.Sound w) (hlive : e.graph.hasNode root)
    (h : e.graph.Postorder [root] order) (hlimit : order.length ≤ e.settings.maxVisits) :
    e.graph.reductionOrder e.settings root = .ok order := by
  have hwalk : e.graph.walk e.settings.maxVisits [] [root] = some order := by
    have hcons := Graph.walk_of_postorder h hlimit [] []
    rw [Graph.walk] at hcons
    simpa using hcons
  unfold Graph.reductionOrder
  simp only [hlive, hs.wired.acyclic.hasCycleFrom_eq_false, Bool.not_true, Bool.false_eq_true,
    if_false]
  rw [hwalk]

theorem hasNode_of_reductionOrder (hr : e.graph.reductionOrder e.settings root = .ok order) :
    e.graph.hasNode root := by
  unfold Graph.reductionOrder at hr
  split at hr
  · cases hr
  · next h => simpa using h

/-- A walk fails at a clash, or visits no clash and leaves what its root leaves. -/
theorem Sound.walk_ensures (hs : e.Sound w)
    (hr : e.graph.reductionOrder e.settings root = .ok order) :
    (replay e.graph e.clock.elapsed owners order).Ensures e.start
      (Clashing w e.graph e.bus order) fun _ m =>
        (∀ id ∈ order, ¬ w.Misfed e.graph id) ∧ Walks w e.graph e.bus m ∧
          Leaves w e.graph root [] m := by
  have hlive := (hs.wired.hasNode_iff root).1 (hasNode_of_reductionOrder hr)
  rcases Graph.postorder_of_reductionOrder hr with _ | ⟨below, beside⟩
  cases beside
  next xs =>
  have hbelow : ∀ t ∈ e.graph.neighbors root, (w t).isSome ∧ ¬ w.Sink t := fun t ht =>
    ⟨hs.wired.isSome_of_mem_neighbors ht, hs.wired.not_sink ht⟩
  rw [replay_append]
  refine ((replay_ensures below hbelow hs.walks).mono_error fun _ _ h => h.mono ?_).bind ?_
  · exact fun i hi => List.mem_append_left _ hi
  rintro _ m₁ ⟨hfed₁, hm₁, vs, hvs⟩
  refine ((visit_ensures hm₁ hlive hvs.yields hvs.stack).mono_error fun _ _ h => h.mono ?_).bind ?_
  · exact fun i hi => List.mem_append_right _ hi
  rintro _ m₂ ⟨hfed₂, hm₂, hleaves⟩
  refine Attempt.ensures_pure ⟨?_, hm₂, hleaves⟩
  intro id hid
  rcases List.mem_append.1 hid with hid | hid
  · exact hfed₁ id hid
  · rw [List.mem_singleton.1 hid]
    exact hfed₂

theorem Sound.supplied_of_postorder (hs : e.Sound w) {n : UiNode} (hn : n ∈ e.nodes)
    {before first last : List Id} (hfirst : e.graph.Postorder before first)
    (hlast : e.graph.Postorder (e.graph.neighbors n.id) last)
    (hbefore : ∀ b ∈ before, (w b).isSome ∧ ¬ w.Sink b)
    (hrun : e.replayed (first ++ last) = (.ok (), m)) :
    ∃ m₀ vs, e.replayed first = (.ok (), m₀) ∧ Walks w e.graph e.bus m ∧
      Supplied w e.graph e.clock.elapsed m₀ n.inputs last m vs := by
  have hinputs : e.graph.neighbors n.id = n.inputs :=
    hs.wired.aims _ _ (hs.casts.plays n hn).identity
  have hnext : ∀ t ∈ e.graph.neighbors n.id, (w t).isSome ∧ ¬ w.Sink t := fun t ht =>
    ⟨hs.wired.isSome_of_mem_neighbors ht, hs.wired.not_sink ht⟩
  rw [replayed, replay_append] at hrun
  obtain ⟨_, m₀, hrun₀, hrun₁⟩ := Attempt.on_bind_eq_ok hrun
  obtain ⟨_, hm₀, _⟩ := (replay_ensures hfirst hbefore hs.walks).of_ok hrun₀
  obtain ⟨_, hm, vs, hvs⟩ := (replay_ensures hlast hnext hm₀).of_ok hrun₁
  exact ⟨m₀, vs, hrun₀, hm, hinputs ▸ hvs⟩

/-- A walk that has come to a UI node has just left a value for each of its inputs. -/
theorem Sound.supplied (hs : e.Sound w) {n : UiNode} {pre post : List Id}
    (hr : e.graph.reductionOrder e.settings root = .ok order) (heq : order = pre ++ n.id :: post)
    (hn : n ∈ e.nodes) (hrun : e.replayed pre = (.ok (), m)) :
    ∃ first last m₀ vs, pre = first ++ last ∧ e.replayed first = (.ok (), m₀) ∧
      Walks w e.graph e.bus m ∧ Supplied w e.graph e.clock.elapsed m₀ n.inputs last m vs := by
  rcases Graph.postorder_of_reductionOrder hr with _ | ⟨below, beside⟩
  cases beside
  next xs =>
  rcases post.eq_nil_or_concat with rfl | ⟨post, last, rfl⟩
  · -- the UI node is the root
    obtain ⟨rfl, hlast⟩ := List.append_inj' heq rfl
    obtain rfl : root = n.id := by simpa using hlast
    obtain ⟨m₀, vs, h⟩ := hs.supplied_of_postorder hn .nil below (by simp) hrun
    exact ⟨[], xs, m₀, vs, rfl, h⟩
  · rw [List.concat_eq_append, ← List.cons_append, ← List.append_assoc] at heq
    obtain ⟨rfl, _⟩ := List.append_inj' heq rfl
    obtain ⟨before, first, last, rfl, hfirst, hlast, hbefore⟩ := below.cut rfl
    have hlive : ∀ b ∈ before, (w b).isSome ∧ ¬ w.Sink b := by
      intro b hb
      obtain ⟨k, hk⟩ : ∃ k, b ∈ e.graph.neighbors k :=
        (hbefore b hb).elim (fun h => ⟨root, h⟩) fun h => h
      exact ⟨hs.wired.isSome_of_mem_neighbors hk, hs.wired.not_sink hk⟩
    obtain ⟨m₀, vs, h⟩ := hs.supplied_of_postorder hn hfirst hlast hlive hrun
    exact ⟨first, last, m₀, vs, rfl, h⟩

/-! ## The editor afterwards -/

theorem settings_evaluate (e : Editor) : e.evaluate.2.settings = e.settings := by
  have hinvalidate (e : Editor) (id : Id) : (e.invalidate id).settings = e.settings := by
    unfold invalidate
    split <;> rfl
  unfold evaluate
  split
  · rfl
  · dsimp only
    split
    · exact hinvalidate ..
    · rfl

theorem Walks.sound (hm : Walks w e.graph e.bus m) : (e.walked m).Sound w :=
  ⟨hm.wired, hm.casts, hm.observers.symm⟩

theorem carries_invalidate (e : Editor) (id : Id) : e.Carries (e.invalidate id) := by
  intro w h
  unfold invalidate
  split
  · next id' input ready hnode =>
    have hmem := (node?_eq_some hnode).1
    have hplays := h.casts.plays _ hmem
    have hacted : UiNode.Acted w e.graph (.renderTarget id' input ready)
        (.renderTarget id' input false) e.scene :=
      ⟨rfl, rfl, hplays.seated h.wired (UInt32.le_refl _)⟩
    exact h.replace hmem hacted
  · exact ⟨w, h, .refl w e.graph⟩

theorem carries_withServices (e : Editor) (services : Services) :
    e.Carries (e.withServices services) :=
  .of_wired rfl rfl (fun _ h => h) rfl

theorem carries_evaluate (e : Editor) : e.Carries e.evaluate.2 := by
  cases hroot : e.root with
  | none =>
      simp only [evaluate, hroot]
      exact .refl e
  | some root =>
      cases hr : e.graph.reductionOrder e.settings root with
      | error err =>
          rw [evaluate_of_no_order hroot hr]
          exact carries_invalidate e root
      | ok order =>
          intro w hs
          rw [evaluate_of_order hroot hr]
          have hwalk := hs.walk_ensures hr
          cases hrun : e.replayed order with
          | mk r m =>
              cases r with
              | error err => exact carries_invalidate _ root w (hwalk.of_error hrun).2.2.sound
              | ok u => exact carries_withServices _ _ w (hwalk.of_ok hrun).2.1.sound

end Editor

end DrawGraph
