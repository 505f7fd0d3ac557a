import DrawGraph.Proofs.Editor.Giving

/-!
# Shared nodes and repeated evaluations

A node is visited once for each path that leads to it, and every visit takes the same values and
comes to the same effect. An evaluation changes the boxes of results, and whether render targets are
ready; as it reads none of these, a second one right after it does the same again.
-/

namespace DrawGraph

open Evaluation Machine Wiring

namespace Editor

variable {w : Wiring} {e e' : Editor} {id root : Id} {ns order : List Id} {us vs : List Value}
  {f : Effect} {m m' : Machine (List UiNode)} {steps : List (Id × Effect)}

/-! ## Effects that are noted again -/

/-- A box holds what was noted last for it, whatever was there before. -/
theorem get?_log (steps : List (Id × Effect)) (p : Id) :
    (∀ m, (log steps m).values.get? p = m.values.get? p) ∨
      ∃ v, ∀ m, (log steps m).values.get? p = some v := by
  induction steps with
  | nil => exact Or.inl fun _ => rfl
  | cons s steps ih =>
      rcases ih with hkept | ⟨v, hv⟩
      · cases hstored : s.2.stored with
        | none =>
            refine Or.inl fun m => (hkept (s.2.turn s.1 m)).trans ?_
            rw [Effect.turn, Effect.note, hstored]
            rfl
        | some q =>
            have hput (m : Machine (List UiNode)) :
                (log (s :: steps) m).values.get? p = (m.values.put q.1 q.2).get? p := by
              refine (hkept (s.2.turn s.1 m)).trans ?_
              rw [Effect.turn, Effect.note, hstored]
              rfl
            by_cases hp : p = q.1
            · exact Or.inr ⟨q.2, fun m => by rw [hput, Table.get?_put, if_pos hp]⟩
            · exact Or.inl fun m => by rw [hput, Table.get?_put, if_neg hp]
      · exact Or.inr ⟨v, fun m => hv (s.2.turn s.1 m)⟩

theorem owner_log (steps : List (Id × Effect)) : ∃ ready : Id → Option Bool, ∀ m,
    (log steps m).owner = m.owner.map fun k => k.readied (ready k.id) := by
  induction steps with
  | nil => exact ⟨fun _ => none, fun m => by simp [log]⟩
  | cons s steps ih =>
      obtain ⟨ready, hready⟩ := ih
      refine ⟨fun id => (ready id).or (if id = s.1 then s.2.ready else none), fun m => ?_⟩
      refine (hready (s.2.turn s.1 m)).trans ?_
      rw [show (s.2.turn s.1 m).owner = m.owner.map _ from rfl, List.map_map]
      apply List.map_congr_left
      intro k _
      dsimp only [Function.comp_apply]
      split
      · rw [k.id_readied, k.readied_readied]
      · rw [Option.or_none]

/-- What is noted a second time changes nothing more. -/
theorem log_again (hvalues : m'.values = (log steps m).values)
    (howner : m'.owner = (log steps m).owner) :
    (∀ p, (log steps m').values.get? p = m'.values.get? p) ∧
      (log steps m').owner = m'.owner := by
  constructor
  · intro p
    rcases get?_log steps p with hkept | ⟨v, hv⟩
    · exact hkept m'
    · rw [hv, hvalues, hv]
  · obtain ⟨ready, hready⟩ := owner_log steps
    rw [hready, howner, hready, List.map_map]
    apply List.map_congr_left
    intro k _
    rw [Function.comp_apply, k.id_readied, k.readied_readied, Option.or_self]

/-- Draw calls and readiness depend only on those before. -/
theorem log_congr (steps : List (Id × Effect)) (hcalls : m'.calls = m.calls)
    (hsubmitted : m'.submitted = m.submitted) (hready : m'.ready = m.ready) :
    (log steps m').calls = (log steps m).calls ∧ (log steps m').ready = (log steps m).ready := by
  induction steps generalizing m m' with
  | nil => exact ⟨hcalls, hready⟩
  | cons s steps ih =>
      apply ih
      · simp [Effect.turn, Effect.note, hcalls, hsubmitted]
      · simp [Effect.turn, Effect.note, hsubmitted]
      · simp [Effect.turn, Effect.note, hready]

/-! ## The same effects after an evaluation -/

/-- What an evaluation changes has no part in what nodes come to. -/
theorem Held.effectAt_congr {tight : Prop} (h : e.Held tight w) (he : Evaluated e e')
    (hclock : e'.clock = e.clock) (hid : (w id).isSome)
    (hlen : us.length = (e.graph.neighbors id).length) :
    e'.effectAt id us = e.effectAt id us := by
  obtain ⟨r, hr⟩ := Option.isSome_iff_exists.1 hid
  obtain ⟨⟨n, hn, hdescribes⟩, hheads, _, _⟩ := h.laid.lies id r hr
  have hn' : e'.graph.node? id = some n := by rw [he.graph, hn]
  cases r with
  | identity inputs outputs =>
      obtain ⟨k, hk, rfl⟩ := h.casts.cast id inputs outputs hr
      obtain ⟨k', hk', hunready⟩ := find?_of_unready he.nodes (h.casts.find?_id hk)
      have hpin : ¬ n.direction.isPin := by simp [hdescribes.1, Direction.isPin]
      rw [effectAt_identity hn hpin (h.casts.find?_id hk), effectAt_identity hn' hpin hk', hclock]
      exact UiNode.effect_congr hunready fun o ho hres =>
        he.box o (h.casts.notMem_results hk ho hres)
  | input owner kind =>
      have hpin : n.direction.isPin := by rw [show n.direction = .input from hdescribes]; rfl
      have hbox : e'.values.get? id = e.values.get? id := he.box id fun k hk hmem => by
        have hout := (h.casts.plays k hk).output (k.results_subset hmem)
        rw [hr] at hout
        cases hout
      rw [effectAt_pin hn hpin, effectAt_pin hn' hpin, hbox]
  | output owner offer =>
      have hpin : n.direction.isPin := by rw [show n.direction = .output from hdescribes]; rfl
      rw [show e.graph.neighbors id = [owner] from hheads] at hlen
      obtain ⟨v, rfl⟩ := List.length_eq_one_iff.1 hlen
      rw [effectAt_pin hn hpin, effectAt_pin hn' hpin]
      rfl

theorem Held.gives_congr (h : e.Held True w) (he : Evaluated e e') (hclock : e'.clock = e.clock)
    (hns : ∀ n ∈ ns, (w n).isSome) (hgives : e.Gives ns vs) : e'.Gives ns vs := by
  induction hgives with
  | nil => exact .nil
  | @cons n ns us vs f v below effect value _ ihBelow ihBeside =>
      have hn := hns n List.mem_cons_self
      have hbelow := ihBelow fun t ht => (h.laid.supplies hn ht).1
      have hgives : e'.Gives (e'.graph.neighbors n) us := by
        rw [he.graph]
        exact hbelow
      have heffect : e'.effectAt n us = .ok f := by
        rw [h.effectAt_congr he hclock hn below.length_eq, effect]
      exact .cons hgives heffect value (ihBeside fun k hk => hns k (List.mem_cons_of_mem _ hk))

theorem Held.does_congr (h : e.Held True w) (he : Evaluated e e') (hclock : e'.clock = e.clock)
    (hid : (w id).isSome) (hdoes : e.Does id f) : e'.Does id f := by
  obtain ⟨us, hus, hf⟩ := hdoes
  refine ⟨us, ?_, ?_⟩
  · rw [he.graph]
    exact h.gives_congr he hclock (fun t ht => (h.laid.supplies hid ht).1) hus
  · rw [h.effectAt_congr he hclock hid hus.length_eq, hf]

theorem Held.traces_congr (h : e.Held True w) (he : Evaluated e e') (hclock : e'.clock = e.clock)
    (hids : ∀ id ∈ order, (w id).isSome) (htraces : e.Traces order steps) :
    e'.Traces order steps where
  order := htraces.order
  does s hs := h.does_congr he hclock
    (hids s.1 (htraces.order ▸ List.mem_map_of_mem hs)) (htraces.does s hs)

/-! ## A second evaluation -/

/-- An evaluation again gives the same report, the same boxes and the same UI nodes. -/
def Repeats (e : Editor) (report : EvalReport) : Prop :=
  ∃ e', e.evaluate = (.ok report, e') ∧ e'.nodes = e.nodes ∧
    ∀ p, e'.values.get? p = e.values.get? p

theorem Held.repeats (h : e.Held True w) (hroot : ∀ root, e.root = some root → (w root).isSome)
    {report : EvalReport} (hok : e.evaluate = (.ok report, e')) : e'.Repeats report := by
  have hevaluated := h.distinct.evaluated
  rw [hok] at hevaluated
  obtain ⟨root, order, m, hsome, hr, hrun, rfl, rfl⟩ := evaluate_eq_ok hok
  have hlive := hroot root hsome
  have hids := h.isSome_of_postorder (Graph.postorder_of_reductionOrder hr)
    (by simpa using hlive)
  obtain ⟨steps, f, hsteps, hm⟩ := h.replayed_ok hr hlive hrun
  generalize hservices : m.calls.foldl render e.scene.services = services at *
  set e' := (e.walked m).withServices services
  have h' : e'.Held True w := h.of_evaluated hevaluated
  have hr' : e'.graph.reductionOrder e'.settings root = .ok order := hr
  have hsteps' := h.traces_congr hevaluated rfl hids hsteps
  cases hrun' : e'.replayed order with
  | mk r m' =>
      cases r with
      | error err =>
          -- the visit that fails did not fail before
          obtain ⟨pre, id, post, _, us, heq, _, _, hus, hfail⟩ := h'.replayed_error hr' hlive hrun'
          obtain ⟨_, hmem⟩ := hsteps'.exists_mem (show id ∈ order by simp [heq])
          obtain ⟨us', hus', hf'⟩ := hsteps'.does _ hmem
          rw [hus.unique hus', hf'] at hfail
          cases hfail
      | ok u =>
          obtain ⟨steps', f', hsame, hm'⟩ := h'.replayed_ok hr' hlive hrun'
          have hlast := hsteps'.unique hsame
          obtain ⟨rfl, hlast⟩ := List.append_inj' hlast rfl
          obtain rfl : f = f' := by simpa using hlast
          have hsame : (log (steps ++ [(root, f)]) e'.start).calls = _ ∧ _ :=
            log_congr (m := e.start) _ rfl rfl rfl
          have hvalues : m.values = (log (steps ++ [(root, f)]) e.start).values := by rw [hm]
          have howner : m.owner = (log (steps ++ [(root, f)]) e.start).owner := by rw [hm]
          have hagain : (∀ p, (log (steps ++ [(root, f)]) e'.start).values.get? p = _) ∧ _ :=
            log_again hvalues howner
          have hreport : report m' order.length = report m order.length := by
            rw [hm', hm]
            simp only [Evaluation.report, hsame]
          refine ⟨(e'.walked m').withServices (m'.calls.foldl render e'.scene.services), ?_, ?_, ?_⟩
          · rw [evaluate_of_order (e := e') hsome hr', hrun', ← hreport]
          · show m'.owner = e'.nodes
            rw [hm']
            exact hagain.2
          · intro p
            show m'.values.get? p = e'.values.get? p
            rw [hm']
            exact hagain.1 p

/-! ## Shared nodes -/

/-- The visit of a node takes these values off the stack, and what it comes to depends on them
only. -/
def Visits (e : Editor) (id : Id) (vs : List Value) (m : Machine (List UiNode)) : Prop :=
  vs.length = (e.graph.neighbors id).length ∧ ∃ rest, m.stack = vs.reverse ++ rest ∧
    (visit e.graph e.clock.elapsed owners id).on m =
      match e.effectAt id vs with
      | .ok f => (.ok (), { f.turn id m with stack := f.value.toList ++ rest })
      | .error err => (.error err, { m with stack := rest })

/-- A walk from the root gets past the node. -/
def Reduces (e : Editor) (root id : Id) : Prop :=
  ∃ order pre post, e.graph.reductionOrder e.settings root = .ok order ∧ order = pre ++ post ∧
    id ∈ pre ∧ (e.replayed pre).1 = .ok ()

/-- What an evaluation from a root does with nodes that are shared, what it changes, and what comes
of another. -/
structure Shares (e : Editor) (root : Id) : Prop where
  visits : ∀ order id, e.graph.reductionOrder e.settings root = .ok order →
    ∃ vs, ∀ pre post m, order = pre ++ id :: post → e.replayed pre = (.ok (), m) →
      e.Visits id vs m
  draws : ∀ d vs f, .draw d ∈ e.nodes → e.effectAt d.id vs = .ok f →
    ∃ constants, f.call = some (d.call vs constants)
  changes : ∃ values nodes renderer, e.evaluate.2 =
      { e with
        scene := { e.scene with values, services := { e.scene.services with renderer } }
        nodes } ∧
    nodes.map UiNode.unready = e.nodes.map UiNode.unready ∧
      ∀ p, values.get? p ≠ e.values.get? p → ∃ n ∈ e.nodes, p ∈ n.outputs ∧ e.Reduces root n.id
  repeats : ∀ report e', e.evaluate = (.ok report, e') → e'.Repeats report

theorem Held.visits (h : e.Held True w) (hroot : (w root).isSome)
    (hr : e.graph.reductionOrder e.settings root = .ok order) (id : Id) :
    ∃ vs, ∀ pre post m, order = pre ++ id :: post → e.replayed pre = (.ok (), m) →
      e.Visits id vs m := by
  by_cases hgives : ∃ vs, e.Gives (e.graph.neighbors id) vs
  · obtain ⟨vs, hvs⟩ := hgives
    refine ⟨vs, fun pre post m heq hrun => ⟨hvs.length_eq, ?_⟩⟩
    obtain ⟨hid, hm, us, rest, hus, hstack⟩ := h.supplied hr hroot heq hrun
    obtain rfl := hus.unique hvs
    exact ⟨rest, hstack, h.visit_on hm hid hus.length_eq hstack⟩
  · refine ⟨[], fun pre post m heq hrun => ?_⟩
    obtain ⟨_, _, us, _, hus, _⟩ := h.supplied hr hroot heq hrun
    exact absurd ⟨us, hus⟩ hgives

/-- A walk writes boxes of UI nodes that it gets past. -/
theorem Held.reduces (h : e.Held True w) (hroot : (w root).isSome)
    (hr : e.graph.reductionOrder e.settings root = .ok order) {p : Id}
    (hp : (e.replayed order).2.values.get? p ≠ e.values.get? p) :
    ∃ n ∈ e.nodes, p ∈ n.outputs ∧ e.Reduces root n.id := by
  obtain ⟨pre, post, m, heq, hpre, hvalues⟩ : ∃ pre post m, order = pre ++ post ∧
      e.replayed pre = (.ok (), m) ∧ (e.replayed order).2.values = m.values := by
    cases hrun : e.replayed order with
    | mk r m =>
        cases r with
        | ok u => exact ⟨order, [], m, (List.append_nil _).symm, hrun, rfl⟩
        | error err =>
            obtain ⟨pre, id, post, m₁, _, heq, hpre, hvalues, _⟩ := h.replayed_error hr hroot hrun
            exact ⟨pre, id :: post, m₁, heq, hpre, hvalues⟩
  by_contra hno
  refine hp ?_
  rw [hvalues]
  have hkept := (h.distinct.replayed pre).1 p fun n hn hmem hres =>
    hno ⟨n, hn, n.results_subset hres, order, pre, post, hr, heq, hmem, by rw [hpre]⟩
  rwa [hpre] at hkept

theorem Held.sharing (h : e.Held True w) (hroot : e.root = some root) (hlive : (w root).isSome) :
    e.Shares root where
  visits _ id hr := h.visits hlive hr id
  draws _ _ _ hd hf := by
    obtain ⟨_, ⟨constants, _, rfl⟩, rfl⟩ := h.effect_of_draw hd hf
    exact ⟨constants, rfl⟩
  changes := by
    have hnodes := h.distinct.evaluated.nodes
    cases hr : e.graph.reductionOrder e.settings root with
    | error err =>
        rw [evaluate_of_no_order hroot hr] at hnodes ⊢
        obtain ⟨nodes, heq⟩ := e.invalidate_eq root
        refine ⟨e.values, nodes, e.scene.services.renderer, heq, ?_, fun p hp => absurd rfl hp⟩
        rwa [heq] at hnodes
    | ok order =>
        have hchanged := fun p => h.reduces (p := p) hlive hr
        rw [evaluate_of_order hroot hr] at hnodes ⊢
        cases hrun : e.replayed order with
        | mk r m =>
            rw [hrun] at hnodes hchanged
            cases r with
            | error err =>
                obtain ⟨nodes, heq⟩ := (e.walked m).invalidate_eq root
                refine ⟨m.values, nodes, e.scene.services.renderer, heq, ?_, hchanged⟩
                change ((e.walked m).invalidate root).nodes.map _ = _ at hnodes
                rwa [heq] at hnodes
            | ok u =>
                obtain ⟨renderer, heq⟩ := foldl_render m.calls e.scene.services
                exact ⟨m.values, m.owner, renderer, congrArg (e.walked m).withServices heq, hnodes,
                  hchanged⟩
  repeats _ _ hok := h.repeats (fun root' hroot' => by
    obtain rfl : root = root' := Option.some.inj (hroot.symm.trans hroot')
    exact hlive) hok

/-- Every live node belongs to a UI node, whatever the roles are that these play. -/
theorem Sound.isSome_of_held {tight : Prop} {w' : Wiring} (hs : e.Sound w) (h : e.Held tight w')
    (hlive : e.graph.hasNode id) : (w' id).isSome := by
  obtain ⟨r, hr⟩ := Option.isSome_iff_exists.1 ((hs.wired.hasNode_iff id).1 hlive)
  obtain ⟨n, hn, hmem⟩ : ∃ n ∈ e.nodes, id ∈ n.id :: n.pins := by
    cases r with
    | identity inputs outputs =>
        obtain ⟨n, hn, rfl⟩ := hs.casts.cast id inputs outputs hr
        exact ⟨n, hn, List.mem_cons_self⟩
    | input owner kind =>
        obtain ⟨n, hn, _, hmem⟩ := hs.input_node hr
        exact ⟨n, hn, List.mem_cons_of_mem _ (List.mem_append_left _ hmem)⟩
    | output owner offer =>
        obtain ⟨n, hn, _, hmem⟩ := hs.output_node hr
        exact ⟨n, hn, List.mem_cons_of_mem _ (List.mem_append_right _ hmem)⟩
  obtain ⟨r', hr', _⟩ := (h.casts.plays n hn).home_eq hmem
  simp [hr']

/-- In every evaluation of a reached editor shared nodes do the same at each visit, and another
evaluation does what the last one did. -/
theorem Reached.shares (h : Reached e) (hroot : e.root = some root)
    (hlive : e.graph.hasNode root) : e.Shares root := by
  obtain ⟨w, hs⟩ := h.sound
  obtain ⟨w', hheld⟩ := h.ran.held
  exact hheld.sharing hroot (hs.isSome_of_held hheld hlive)

/-- A sum of a draw node and itself. -/
def twin : Editor :=
  built [.addNode .draw, .setPin 1 (.int 1), .setPin 3 (.int 0), .addNode .add, .link 8 5,
    .link 10 5, .setRoot (some 7)]

theorem reached_twin : Reached twin :=
  reached_built ⟨by decide +kernel, trivial, trivial, by decide +kernel, by decide +kernel,
    by decide +kernel, trivial, trivial⟩

/-- The draw node is visited twice. -/
theorem shares_twin : twin.root = some 7 ∧ twin.graph.hasNode 7 ∧ twin.Shares 7 ∧
    (twin.graph.reductionOrder twin.settings 7).toOption.map (·.count 0) = some 2 := by
  have hroot : twin.root = some 7 := by decide +kernel
  have hlive : twin.graph.hasNode 7 := by decide +kernel
  exact ⟨hroot, hlive, reached_twin.shares hroot hlive, by decide +kernel⟩

end Editor

end DrawGraph
