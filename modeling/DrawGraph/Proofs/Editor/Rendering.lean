import DrawGraph.Proofs.Editor.Leftover
import DrawGraph.Proofs.Editor.Operation
import Mathlib.Data.List.Induction

/-!
# What reaches the renderer

A walk queues of each draw node the draw call of its first reduction, if that is complete. An
evaluation hands what was queued to the renderer only when no visit has failed. A render target at
the root is ready afterwards as the report says, and is not ready when the evaluation has failed.
-/

namespace DrawGraph

open Evaluation Machine Wiring

namespace Graph.Postorder

variable {g : Graph} {root id : Id} {ns order : List Id}

theorem subset (h : g.Postorder ns order) : ns ⊆ order := by
  induction h with
  | nil => exact List.Subset.refl []
  | @cons n ns xs ys _ _ _ ihBeside =>
      intro k hk
      rcases List.mem_cons.1 hk with rfl | hk
      · simp
      · exact List.mem_append_right _ (List.mem_cons_of_mem _ (ihBeside hk))

/-- A walk meets the nodes that paths lead to. -/
theorem mem_iff_leads (h : g.Postorder [root] order) : id ∈ order ↔ g.Leads root id := by
  constructor
  · exact h.mem_of_closed (p := g.Leads root) (fun _ hn _ ht => hn.tail ht)
      (fun n hn => by rw [List.mem_singleton.1 hn]; exact .refl root) id
  · intro hlead
    refine hlead.mem_of_closed (fun k hk t ht => ?_) (h.subset List.mem_cons_self)
    obtain ⟨pre, post, heq⟩ := List.append_of_mem hk
    obtain ⟨_, first, last, rfl, _, hlast, _⟩ := h.cut heq
    rw [heq, List.append_assoc]
    exact List.mem_append_right _ (List.mem_append_left _ (hlast.subset ht))

end Graph.Postorder

/-! ## First occurrences -/

theorem eraseDups_concat {α : Type} [BEq α] [LawfulBEq α] (as : List α) (a : α) :
    (as ++ [a]).eraseDups = if a ∈ as then as.eraseDups else as.eraseDups ++ [a] := by
  rw [List.eraseDups_append, List.removeAll]
  split
  · next h => simp [h]
  · next h => simp [h, List.eraseDups_cons]

theorem nodup_eraseDups {α : Type} [BEq α] [LawfulBEq α] (as : List α) :
    as.eraseDups.Nodup := by
  induction as using List.reverseRecOn with
  | nil => exact List.nodup_nil
  | append_singleton as a ih =>
      rw [eraseDups_concat]
      split
      · exact ih
      · next h =>
        refine List.nodup_append.2 ⟨ih, List.nodup_singleton a, fun b hb c hc => ?_⟩
        rw [List.mem_singleton.1 hc]
        rintro rfl
        exact h (List.mem_eraseDups.1 hb)

namespace Editor

variable {w : Wiring} {e e' : Editor} {root id : Id} {order : List Id} {us : List Value}
  {f : Effect} {m : Machine (List UiNode)} {steps : List (Id × Effect)} {d : Draw}

/-! ## The draw nodes of a walk -/

/-- The draw node that has this identity. -/
def draw? (e : Editor) (id : Id) : Option Draw :=
  match e.node? id with
  | some (.draw d) => some d
  | _ => none

/-- The draw nodes of a walk, in the order in which they are first reduced. -/
def draws (e : Editor) (order : List Id) : List Draw := order.eraseDups.filterMap e.draw?

/-- Every reduction of the draw node makes this draw call of the values that it takes. -/
def Builds (e : Editor) (order : List Id) (d : Draw) (c : DrawCall) : Prop :=
  ∀ pre post, order = pre ++ d.id :: post → ∃ m vs rest, e.replayed pre = (.ok (), m) ∧
    vs.length = 2 + d.bindings.length ∧ m.stack = vs.reverse ++ rest ∧ d.Calls vs c

theorem draw?_eq_some (h : e.draw? id = some d) : .draw d ∈ e.nodes ∧ d.id = id := by
  unfold draw? at h
  split at h
  · next hn =>
    cases h
    exact node?_eq_some hn
  · cases h

theorem Held.draw?_eq {tight : Prop} (h : e.Held tight w) (hd : .draw d ∈ e.nodes) :
    e.draw? d.id = some d := by
  have hfind : e.node? d.id = some (.draw d) := h.casts.find?_id hd
  rw [draw?, hfind]

theorem Held.mem_draws_iff {tight : Prop} (h : e.Held tight w) :
    d ∈ e.draws order ↔ .draw d ∈ e.nodes ∧ d.id ∈ order := by
  rw [draws, List.mem_filterMap]
  constructor
  · rintro ⟨id, hid, hd⟩
    obtain ⟨hmem, rfl⟩ := draw?_eq_some hd
    exact ⟨hmem, List.mem_eraseDups.1 hid⟩
  · rintro ⟨hmem, hid⟩
    exact ⟨d.id, List.mem_eraseDups.2 hid, h.draw?_eq hmem⟩

/-- No draw node occurs twice. -/
theorem nodup_draws (e : Editor) (order : List Id) : (e.draws order).Nodup := by
  refine List.Nodup.filterMap (fun a b d ha hb => ?_) (nodup_eraseDups order)
  rw [← (draw?_eq_some ha).2, (draw?_eq_some hb).2]

/-! ## The draw calls of a walk -/

theorem mem_submitted_turn {k : Id} : k ∈ (f.turn id m).submitted ↔
    k ∈ m.submitted ∨ k = id ∧ f.complete?.isSome := by
  rw [show (f.turn id m).submitted = (if id ∈ m.submitted then [] else
    f.complete?.toList.map fun _ => id) ++ m.submitted from rfl, List.mem_append]
  split
  · next hid =>
    refine ⟨fun h => h.elim (fun h => nomatch h) Or.inl, ?_⟩
    rintro (h | ⟨rfl, _⟩)
    · exact Or.inr h
    · exact Or.inr hid
  · cases f.complete? <;> simp [or_comm]

/-- Of each node a walk queues the first draw call only. -/
theorem calls_log (doing : Id → Effect) (hcalls : m.calls = []) (hsubmitted : m.submitted = [])
    (order : List Id) :
    (log (order.map fun id => (id, doing id)) m).calls =
        order.eraseDups.filterMap (fun id => (doing id).complete?) ∧
      ∀ id, id ∈ (log (order.map fun id => (id, doing id)) m).submitted ↔
        id ∈ order ∧ (doing id).complete?.isSome := by
  induction order using List.reverseRecOn with
  | nil => simp [log, hcalls, hsubmitted]
  | append_singleton order id ih =>
      obtain ⟨ihCalls, ihSubmitted⟩ := ih
      rw [List.map_append, log_append, eraseDups_concat]
      generalize log (order.map fun id => (id, doing id)) m = m' at ihCalls ihSubmitted
      rw [show log ([id].map fun id => (id, doing id)) m' = (doing id).turn id m' from rfl]
      -- a node met before has queued its draw call then, if that is complete at all
      constructor
      · rw [show ((doing id).turn id m').calls = m'.calls ++ if id ∈ m'.submitted then [] else
          (doing id).complete?.toList from rfl, ihCalls]
        by_cases hid : id ∈ order <;> cases hc : (doing id).complete? <;>
          simp [ihSubmitted, hid, hc]
      · intro k
        rw [mem_submitted_turn, ihSubmitted k, List.mem_append, List.mem_singleton, or_and_right]
        exact or_congr_right (and_congr_right fun hk => by rw [hk])

theorem Traces.exists_doing (h : e.Traces order steps) : ∃ doing : Id → Effect,
    steps = order.map (fun id => (id, doing id)) ∧ ∀ id ∈ order, e.Does id (doing id) := by
  have hsome (id : Id) : ∃ f, ∀ f', e.Does id f' → f' = f := by
    by_cases hdoes : ∃ f, e.Does id f
    · obtain ⟨f, hf⟩ := hdoes
      exact ⟨f, fun f' hf' => hf'.unique hf⟩
    · exact ⟨{}, fun f' hf' => absurd ⟨f', hf'⟩ hdoes⟩
  choose doing hdoing using hsome
  refine ⟨doing, ?_, fun id hid => ?_⟩
  · rw [← h.order, List.map_map]
    refine (List.map_id' steps).symm.trans (List.map_congr_left fun s hs => ?_)
    exact Prod.ext rfl (hdoing s.1 s.2 (h.does s hs))
  · obtain ⟨f, hf⟩ := h.exists_mem hid
    rw [← hdoing id f (h.does _ hf)]
    exact h.does _ hf

/-- A node that is no draw node makes no draw call. -/
theorem Held.call_eq_none {tight : Prop} (h : e.Held tight w) (hid : (w id).isSome)
    (hnone : e.draw? id = none) (hf : e.effectAt id us = .ok f) : f.call = none := by
  rcases h.effectAt_cases hid hf with ⟨k, hk, rfl, hsuits⟩ | ⟨v, rfl⟩
  · refine Option.eq_none_iff_forall_not_mem.2 fun c hc => ?_
    obtain ⟨d, rfl⟩ := hsuits.call c hc
    rw [show (UiNode.draw d).id = d.id from rfl, h.draw?_eq hk] at hnone
    cases hnone
  · rfl

theorem Held.builds (h : e.Held True w) (hr : e.graph.reductionOrder e.settings root = .ok order)
    (hroot : (w root).isSome) (hrun : e.replayed order = (.ok (), m)) (hd : .draw d ∈ e.nodes)
    (hus : e.Gives (e.graph.neighbors d.id) us) {c : DrawCall} (hc : d.Calls us c) :
    e.Builds order d c := by
  intro pre post heq
  rw [heq, replayed, replay_append] at hrun
  obtain ⟨_, m₁, hpre, _⟩ := Attempt.on_bind_eq_ok hrun
  obtain ⟨_, _, vs, rest, hvs, hstack⟩ := h.supplied hr hroot heq hpre
  obtain rfl := hus.unique hvs
  refine ⟨m₁, us, rest, hpre, ?_, hstack, hc⟩
  have hinputs : e.graph.neighbors d.id = (UiNode.draw d).inputs :=
    (h.laid.lies d.id _ (h.casts.plays _ hd).identity).heads
  rw [hus.length_eq, hinputs, UiNode.inputs, List.length_cons, List.length_cons, List.length_map]
  omega

/-- What every visit of a draw node comes to has a draw call. -/
theorem Held.call_of_does {tight : Prop} (h : e.Held tight w) (hd : .draw d ∈ e.nodes)
    (hdoes : e.Does d.id f) :
    ∃ us c, e.Gives (e.graph.neighbors d.id) us ∧ d.Calls us c ∧ f.call = some c := by
  obtain ⟨us, hus, hf⟩ := hdoes
  obtain ⟨c, hc, rfl⟩ := h.effect_of_draw hd hf
  exact ⟨us, c, hus, hc, rfl⟩

theorem Held.complete?_of_does {tight : Prop} (h : e.Held tight w) (hid : (w id).isSome)
    (hdoes : e.Does id f) {made : Draw → DrawCall}
    (hmade : ∀ d, e.draw? id = some d → f.call = some (made d)) :
    f.complete? = ((e.draw? id).map made).filter DrawCall.isComplete := by
  cases hd : e.draw? id with
  | none =>
      obtain ⟨us, _, hf⟩ := hdoes
      rw [Effect.complete?, h.call_eq_none hid hd hf]
      rfl
  | some d =>
      rw [Effect.complete?, hmade d hd]
      rfl

/-- A walk that does not fail queues what the draw nodes make, as far as it is complete. -/
theorem Held.calls_replayed (h : e.Held True w)
    (hr : e.graph.reductionOrder e.settings root = .ok order) (hroot : (w root).isSome)
    (hrun : e.replayed order = (.ok (), m)) : ∃ made : Draw → DrawCall,
      (∀ d ∈ e.draws order, e.Builds order d (made d) ∧
        ∃ vs, e.Gives (e.graph.neighbors d.id) vs ∧ d.Calls vs (made d)) ∧
        m.calls = ((e.draws order).map made).filter DrawCall.isComplete := by
  obtain ⟨steps, f, hsteps, hm⟩ := h.replayed_ok hr hroot hrun
  obtain ⟨doing, heq, hdoes⟩ := hsteps.exists_doing
  have hids := h.isSome_of_postorder (Graph.postorder_of_reductionOrder hr)
    (by simpa using hroot)
  have hdraws (d : Draw) : ∃ c, d ∈ e.draws order → ∃ us, e.Gives (e.graph.neighbors d.id) us ∧
      d.Calls us c ∧ (doing d.id).call = some c := by
    by_cases hd : d ∈ e.draws order
    · obtain ⟨hmem, hid⟩ := h.mem_draws_iff.1 hd
      obtain ⟨us, c, hus, hc, hcall⟩ := h.call_of_does hmem (hdoes d.id hid)
      exact ⟨c, fun _ => ⟨us, hus, hc, hcall⟩⟩
    · exact ⟨d.call [] [], fun h => absurd h hd⟩
  choose made hmade using hdraws
  refine ⟨made, fun d hd => ?_, ?_⟩
  · obtain ⟨us, hus, hc, _⟩ := hmade d hd
    exact ⟨h.builds hr hroot hrun (h.mem_draws_iff.1 hd).1 hus hc, us, hus, hc⟩
  · rw [draws, List.map_filterMap, List.filter_filterMap, hm, heq]
    refine (calls_log doing rfl rfl order).1.trans (List.filterMap_congr fun id hid => ?_)
    have hid := List.mem_eraseDups.1 hid
    refine h.complete?_of_does (hids id hid) (hdoes id hid) fun d hd => ?_
    obtain ⟨hmem, rfl⟩ := draw?_eq_some hd
    obtain ⟨_, _, _, hcall⟩ := hmade d (h.mem_draws_iff.2 ⟨hmem, hid⟩)
    exact hcall

/-! ## The renderer -/

/-- The renderer takes every complete draw call, unless it refuses all. -/
theorem renderer_foldl_render (calls : List DrawCall) (s : Services)
    (hrefuses : s.renderer.refuses = false) (hcomplete : ∀ c ∈ calls, c.isComplete) :
    (calls.foldl render s).renderer =
      { s.renderer with calls := s.renderer.calls ++ calls } := by
  induction calls generalizing s with
  | nil => simp
  | cons c calls ih =>
      have hrender : s.renderer.render c =
          .ok { s.renderer with calls := s.renderer.calls ++ [c] } := by
        rw [Renderer.render, if_neg (by simp [hrefuses]), if_pos (hcomplete c List.mem_cons_self)]
      rw [List.foldl_cons, render, hrender]
      dsimp only
      rw [ih _ (by exact hrefuses) fun k hk => hcomplete k (List.mem_cons_of_mem _ hk)]
      simp

/-! ## The readiness of render targets -/

theorem node?_replace {n k : UiNode} (h : e.node? n.id = some k) :
    (e.replace n).node? n.id = some n := by
  have hid : ((·.id == n.id) ∘ fun m : UiNode => if m.id = n.id then n else m) =
      (·.id == n.id) := by
    funext m
    rw [Function.comp_apply]
    split
    · next hm => rw [hm]
    · rfl
  rw [node?, replace, List.find?_map, hid]
  rw [show e.nodes.find? (·.id == n.id) = some k from h, Option.map_some,
    if_pos (node?_eq_some h).2]

theorem node?_invalidate {input : Id} {ready : Bool}
    (h : e.node? root = some (.renderTarget root input ready)) :
    (e.invalidate root).node? root = some (.renderTarget root input false) := by
  have hinvalidate : e.invalidate root = e.replace (.renderTarget root input false) := by
    rw [invalidate, h]
  rw [hinvalidate]
  exact node?_replace (n := .renderTarget root input false) h

theorem ready_of_readied {n : UiNode} {input : Id} {ready b : Bool}
    (h : n.readied (some b) = .renderTarget root input ready) : ready = b := by
  cases n with
  | renderTarget id input old =>
      cases h
      rfl
  | _ => cases h

theorem unready_eq_renderTarget {n : UiNode} {input : Id}
    (h : n.unready = .renderTarget root input false) :
    ∃ ready, n = .renderTarget root input ready := by
  cases n with
  | renderTarget id input old =>
      cases h
      exact ⟨old, rfl⟩
  | _ => cases h

theorem Held.target_replayed {tight : Prop} (h : e.Held tight w) {input : Id} {old : Bool}
    (htarget : .renderTarget root input old ∈ e.nodes) (order : List Id) : ∃ ready,
      (e.replayed order).2.owner.find? (·.id == root) = some (.renderTarget root input ready) := by
  obtain ⟨k, hk, hunready⟩ :=
    find?_of_unready (h.distinct.replayed order).2 (h.casts.find?_id htarget)
  obtain ⟨ready, rfl⟩ := unready_eq_renderTarget hunready
  exact ⟨ready, hk⟩

/-- A render target at the root is as ready as the walk says. -/
theorem Held.ready_replayed (h : e.Held True w)
    (hr : e.graph.reductionOrder e.settings root = .ok order)
    (hrun : e.replayed order = (.ok (), m)) {input : Id} {old : Bool}
    (htarget : .renderTarget root input old ∈ e.nodes) : ∃ ready, m.ready = some ready ∧
      m.owner.find? (·.id == root) = some (.renderTarget root input ready) := by
  have hroot : (w root).isSome := Option.isSome_of_eq_some (h.casts.plays _ htarget).identity
  obtain ⟨ready, hfind⟩ := h.target_replayed htarget order
  rw [hrun] at hfind
  obtain ⟨steps, f, hsteps, rfl⟩ := h.replayed_ok hr hroot hrun
  obtain ⟨us, _, hf⟩ := hsteps.does (root, f) (by simp)
  obtain ⟨b, hb⟩ := (h.suits_of_effectAt htarget hf).ready rfl
  rw [log_append] at hfind ⊢
  have hmem := List.mem_of_find?_eq_some hfind
  obtain ⟨j, _, hj⟩ := List.mem_map.1 (show _ ∈ (log steps e.start).owner.map _ from hmem)
  have hlast : ready = b := by
    dsimp only at hj
    split at hj
    · rw [hb] at hj
      exact ready_of_readied hj
    · next hne =>
      subst hj
      exact absurd rfl hne
  refine ⟨b, ?_, hlast ▸ hfind⟩
  show f.ready.or _ = some b
  rw [hb]
  rfl

/-! ## Evaluations -/

/-- What an evaluation that succeeds hands on: of every draw node that the root leads to the one draw
call that all its reductions make, unless the index of its shader or its model is missing. -/
structure Submits (e : Editor) (root : Id) (order : List Id) (report : EvalReport) (e' : Editor) :
    Prop where
  reached : ∀ d, d ∈ e.draws order ↔ .draw d ∈ e.nodes ∧ e.graph.Leads root d.id
  once : (e.draws order).Nodup
  owned : ∀ id, e.graph.Leads root id → DrawsAt e.graph id → ∃ n ∈ e.nodes, n.id = id
  calls : ∃ made : Draw → DrawCall, (∀ d ∈ e.draws order, e.Builds order d (made d)) ∧
    report.calls = ((e.draws order).map made).filter fun c => 0 ≤ c.vertexShader ∧ 0 ≤ c.model
  formed : ∀ c ∈ report.calls, c.isComplete ∧ (∀ b ∈ c.bindings, b.value.kind = b.type.kind) ∧
    c.constants.length = (c.bindings.map (·.type.componentCount)).sum
  renderer : e'.scene.services.renderer =
    { e.scene.services.renderer with calls := e.scene.services.renderer.calls ++ report.calls }
  ready : ∀ input old, e.node? root = some (.renderTarget root input old) →
    ∃ ready, report.ready = some ready ∧ e'.node? root = some (.renderTarget root input ready)

/-- What an evaluation that fails leaves behind. -/
structure Discards (e e' : Editor) : Prop where
  renderer : e'.scene.services.renderer = e.scene.services.renderer
  unready : ∀ root input old, e.root = some root →
    e.node? root = some (.renderTarget root input old) →
      e'.node? root = some (.renderTarget root input false)

/-- What comes of an evaluation that ends in this way. -/
def Renders (e : Editor) : Outcome EvalReport → Prop
  | (.ok report, e') => ∃ root order, e.root = some root ∧
      e.graph.reductionOrder e.settings root = .ok order ∧ e.Submits root order report e'
  | (.error _, e') => e.Discards e'

theorem Held.owned (h : e.Held True w) (hr : e.graph.reductionOrder e.settings root = .ok order)
    (hrun : e.replayed order = (.ok (), m)) (hid : id ∈ order) (hdraws : DrawsAt e.graph id) :
    ∃ n ∈ e.nodes, n.id = id := by
  cases hroot : w root with
  | none => exact absurd hdraws ((h.replayed_leftover hr hroot hrun).1 id hid)
  | some r₀ =>
      have hsome := h.isSome_of_postorder (Graph.postorder_of_reductionOrder hr)
        (by simp [hroot]) id hid
      obtain ⟨r, hrole⟩ := Option.isSome_iff_exists.1 hsome
      obtain ⟨n, hn, hdescribes⟩ := (h.laid.lies id r hrole).node
      obtain ⟨n', hn', _, hpin⟩ := hdraws
      obtain rfl := Option.some.inj (hn.symm.trans hn')
      cases r with
      | identity inputs outputs =>
          obtain ⟨k, hk, rfl⟩ := h.casts.cast id inputs outputs hrole
          exact ⟨k, hk, rfl⟩
      | input owner kind =>
          exact absurd (by rw [show n.direction = .input from hdescribes]; rfl) hpin
      | output owner offer =>
          exact absurd (by rw [show n.direction = .output from hdescribes]; rfl) hpin

/-- A walk from a node that belongs to no UI node queues nothing, and no draw node is in it. -/
theorem Held.queues (h : e.Held True w) (hr : e.graph.reductionOrder e.settings root = .ok order)
    (hrun : e.replayed order = (.ok (), m)) : ∃ made : Draw → DrawCall,
      (∀ d ∈ e.draws order, e.Builds order d (made d) ∧ ∃ vs, d.Calls vs (made d)) ∧
        m.calls = ((e.draws order).map made).filter DrawCall.isComplete := by
  cases hroot : w root with
  | none =>
      have hnil : e.draws order = [] := by
        refine List.eq_nil_iff_forall_not_mem.2 fun d hd => ?_
        obtain ⟨hmem, hid⟩ := h.mem_draws_iff.1 hd
        have hrole := (h.casts.plays _ hmem).identity
        rw [show (UiNode.draw d).id = d.id from rfl, (h.leftover hr hroot).2 d.id hid] at hrole
        cases hrole
      refine ⟨fun d => d.call [] [], by simp [hnil], ?_⟩
      rw [(h.replayed_leftover hr hroot hrun).2, hnil]
      rfl
  | some r =>
      obtain ⟨made, hmade, hcalls⟩ := h.calls_replayed hr (by simp [hroot]) hrun
      exact ⟨made, fun d hd => (hmade d hd).imp_right fun ⟨vs, _, hvs⟩ => ⟨vs, hvs⟩, hcalls⟩

theorem Held.submits (h : e.Held True w) (hrecords : e.scene.services.renderer.refuses = false)
    {report : EvalReport} (hok : e.evaluate = (.ok report, e')) :
    ∃ root order, e.root = some root ∧ e.graph.reductionOrder e.settings root = .ok order ∧
      e.Submits root order report e' := by
  obtain ⟨root, order, m, hroot, hr, hrun, rfl, rfl⟩ := evaluate_eq_ok hok
  have hleads {id : Id} : id ∈ order ↔ e.graph.Leads root id :=
    (Graph.postorder_of_reductionOrder hr).mem_iff_leads
  obtain ⟨made, hmade, hcalls⟩ := h.queues hr hrun
  have hcomplete : m.calls =
      ((e.draws order).map made).filter fun c => 0 ≤ c.vertexShader ∧ 0 ≤ c.model := by
    rw [hcalls]
    refine List.filter_congr fun c hc => ?_
    obtain ⟨d, hd, rfl⟩ := List.mem_map.1 hc
    obtain ⟨_, vs, hvs⟩ := hmade d hd
    exact hvs.isComplete_eq
  have hformed : ∀ c ∈ m.calls, c.isComplete ∧ ∀ b ∈ c.bindings, b.value.kind = b.type.kind := by
    intro c hc
    rw [hcalls] at hc
    obtain ⟨hc, hcomplete⟩ := List.mem_filter.1 hc
    obtain ⟨d, hd, rfl⟩ := List.mem_map.1 hc
    obtain ⟨_, vs, hvs⟩ := hmade d hd
    exact ⟨hcomplete, hvs.kind_eq⟩
  refine ⟨root, order, hroot, hr, ?_⟩
  exact
    { reached := fun d => by rw [h.mem_draws_iff, hleads]
      once := e.nodup_draws order
      owned := fun id hid hdraws => h.owned hr hrun (hleads.2 hid) hdraws
      calls := ⟨made, fun d hd => (hmade d hd).1, hcomplete⟩
      formed := fun c hc => ⟨(hformed c hc).1, (hformed c hc).2,
        DrawCall.length_constants (hformed c hc).2⟩
      renderer := renderer_foldl_render m.calls _ hrecords fun c hc => (hformed c hc).1
      ready := fun input old htarget => h.ready_replayed hr hrun (node?_eq_some htarget).1 }

theorem Held.discards {tight : Prop} (h : e.Held tight w) {err : EditorError}
    (herr : e.evaluate = (.error err, e')) : e.Discards e' := by
  have hinvalidate (e₁ : Editor) (hrenderer : e₁.scene.services.renderer =
      e.scene.services.renderer) (htarget : ∀ root input old,
        e.node? root = some (.renderTarget root input old) →
          ∃ ready, e₁.node? root = some (.renderTarget root input ready))
      (root : Id) (hroot : e.root = some root) : e.Discards (e₁.invalidate root) := by
    constructor
    · obtain ⟨nodes, heq⟩ := e₁.invalidate_eq root
      rw [heq]
      exact hrenderer
    · intro root' input old hroot' hfind
      obtain rfl := Option.some.inj (hroot.symm.trans hroot')
      obtain ⟨ready, hready⟩ := htarget root input old hfind
      exact node?_invalidate hready
  cases hroot : e.root with
  | none =>
      rw [Editor.evaluate, hroot] at herr
      cases herr
      exact ⟨rfl, fun root _ _ hsome => by rw [hroot] at hsome; cases hsome⟩
  | some root =>
      cases hr : e.graph.reductionOrder e.settings root with
      | error err =>
          rw [evaluate_of_no_order hroot hr] at herr
          cases herr
          exact hinvalidate e rfl (fun _ _ old hfind => ⟨old, hfind⟩) root hroot
      | ok order =>
          rw [evaluate_of_order hroot hr] at herr
          have htarget (root input : Id) (old : Bool)
              (hfind : e.node? root = some (.renderTarget root input old)) :=
            h.target_replayed (node?_eq_some hfind).1 order
          cases hrun : e.replayed order with
          | mk r m =>
              rw [hrun] at herr htarget
              cases r with
              | ok u => cases herr
              | error err =>
                  cases herr
                  exact hinvalidate (e.walked m) rfl htarget root hroot

/-- The draw calls of an evaluation are those of the draw nodes that its root leads to, and they
reach the renderer only when it succeeds. -/
theorem Ran.renders (h : Ran e) (hrecords : e.scene.services.renderer.refuses = false) :
    e.Renders e.evaluate := by
  obtain ⟨w, hheld⟩ := h.held
  cases hevaluate : e.evaluate with
  | mk r e' =>
      cases r with
      | ok report => exact hheld.submits hrecords hevaluate
      | error err => exact hheld.discards hevaluate

/-- A render target of a sum of a draw node and itself. -/
def doubleTake : Editor :=
  built [.addNode .draw, .setPin 1 (.int 1), .setPin 3 (.int 0), .addNode .add, .link 8 5,
    .link 10 5, .addNode .renderTarget, .link 17 12]

theorem reached_doubleTake : Reached doubleTake :=
  reached_built ⟨by decide +kernel, trivial, trivial, by decide +kernel, by decide +kernel,
    by decide +kernel, by decide +kernel, by decide +kernel⟩

/-- The draw node is reduced twice and makes one draw call. -/
theorem renders_doubleTake : Ran doubleTake ∧
    doubleTake.scene.services.renderer.refuses = false ∧ doubleTake.Renders doubleTake.evaluate ∧
      (doubleTake.evaluate.1.toOption.map fun r => (r.calls.length, r.ready)) =
        some (1, some true) ∧
        doubleTake.evaluate.2.node? 16 = some (.renderTarget 16 17 true) := by
  have hrecords : doubleTake.scene.services.renderer.refuses = false := by decide +kernel
  exact ⟨reached_doubleTake.ran, hrecords, reached_doubleTake.ran.renders hrecords,
    by decide +kernel, by decide +kernel⟩

end Editor

end DrawGraph
